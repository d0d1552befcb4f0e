import WorkerBridge.Bridge
import WorkerBridge.Runs
import Mathlib.Algebra.Order.Ring.Rat

namespace WorkerBridge

structure HealthState where
  healthy : Option Bool
  checkedAt : ℚ
  error : Option Text
  deriving DecidableEq

/-- What `gather` returns of a `_probe_worker`. -/
inductive ProbeResult
  | returned (result : Bool)
  | raised (className : Text)
  | cancelled
  deriving DecidableEq

/-- The state that is recorded of a result.  A `CancelledError` is no `Exception`, and as an
object it is true. -/
def ProbeResult.health (checkedAt : ℚ) : ProbeResult → HealthState
  | returned result =>
    ⟨some result, checkedAt, if result then none else some "probe failed".toList⟩
  | raised className => ⟨some false, checkedAt, some className⟩
  | cancelled => ⟨some true, checkedAt, none⟩

/-- A task of `gather`. -/
inductive Probe
  | created
  | running
  | done (result : ProbeResult)
  deriving DecidableEq

def Probe.isDone : Probe → Bool
  | done _ => true
  | created => false
  | running => false

/-- Where a `list_public` stands.  `probing` is the part with the lock. -/
inductive ListStage
  | waiting (now : ℚ)
  | probing (now : ℚ) (probes : List (String × Probe))
  | returned (healthByWorker : List (String × HealthState))
  | cancelled
  deriving DecidableEq

structure ListCall where
  stage : ListStage
  cancelRequested : Bool
  deriving DecidableEq

/-- A registry with its calls of `list_public`.  `workers` are the keys of `_workers`, and `lock`
is the call that holds `_health_lock`. -/
structure HealthRegistry where
  workers : List String
  health : String → HealthState
  healthCacheSeconds : ℚ
  lock : Option ℕ
  calls : List ListCall
  clock : ℚ

inductive HealthEvent
  | tick (seconds : ℚ)
  | listPublic
  | acquire (i : ℕ)
  | startProbe (i : ℕ) (workerId : String)
  | endProbe (i : ℕ) (workerId : String) (result : ProbeResult)
  | record (i : ℕ)
  | cancel (i : ℕ)
  | throwCancelled (i : ℕ)

namespace HealthRegistry

variable (s : HealthRegistry)

def stale (now : ℚ) (workerId : String) : Bool :=
  (s.health workerId).healthy.isNone ||
    decide (now - (s.health workerId).checkedAt > s.healthCacheSeconds)

/-- `dict(self._health)`. -/
def snapshot : List (String × HealthState) := s.workers.map fun w => (w, s.health w)

def setCall (i : ℕ) (call : ListCall) : HealthRegistry := { s with calls := s.calls.set i call }

def setStage (i : ℕ) (call : ListCall) (stage : ListStage) : HealthRegistry :=
  s.setCall i { call with stage := stage }

/-- The probe of a worker, with the others as they are. -/
def setProbe (probes : List (String × Probe)) (workerId : String) (probe : Probe) :
    List (String × Probe) :=
  probes.map fun p => if p.1 = workerId then (workerId, probe) else p

def recordAll (checkedAt : ℚ) : List (String × Probe) → (String → HealthState) →
    String → HealthState
  | [], health => health
  | (w, .done result) :: rest, health =>
    recordAll checkedAt rest (Function.update health w (result.health checkedAt))
  | (_, _) :: rest, health => recordAll checkedAt rest health

def acquire (i : ℕ) (call : ListCall) : Option HealthRegistry :=
  match call.stage with
  | .waiting now =>
    if s.lock = none ∧ call.cancelRequested = false then
      let staleWorkers := s.workers.filter (s.stale now)
      if staleWorkers = [] then some (s.setStage i call (.returned s.snapshot))
      else some { s.setStage i call (.probing now (staleWorkers.map fun w => (w, .created))) with
        lock := some i }
    else none
  | .probing _ _ | .returned _ | .cancelled => none

/-- A task that was cancelled before it began does not begin. -/
def startProbe (i : ℕ) (call : ListCall) (workerId : String) : Option HealthRegistry :=
  match call.stage with
  | .probing now probes =>
    if call.cancelRequested = false ∧ probes.lookup workerId = some .created then
      some (s.setStage i call (.probing now (setProbe probes workerId .running)))
    else none
  | .waiting _ | .returned _ | .cancelled => none

def endProbe (i : ℕ) (call : ListCall) (workerId : String) (result : ProbeResult) :
    Option HealthRegistry :=
  match call.stage with
  | .probing now probes =>
    if probes.lookup workerId = some .running ∨
        (probes.lookup workerId = some .created ∧ result = .cancelled) then
      some (s.setStage i call (.probing now (setProbe probes workerId (.done result))))
    else none
  | .waiting _ | .returned _ | .cancelled => none

/-- `gather` has returned. -/
def record (i : ℕ) (call : ListCall) : Option HealthRegistry :=
  match call.stage with
  | .probing _ probes =>
    if call.cancelRequested = false ∧ probes.all (fun p => p.2.isDone) then
      let s := { s with health := recordAll s.clock probes s.health, lock := none }
      some (s.setStage i call (.returned s.snapshot))
    else none
  | .waiting _ | .returned _ | .cancelled => none

/-- `cancel()` on the call.  While it waits in `gather`, it is passed on to the probes. -/
def cancel (i : ℕ) (call : ListCall) : Option HealthRegistry :=
  match call.stage with
  | .waiting _ | .probing _ _ => some (s.setCall i { call with cancelRequested := true })
  | .returned _ | .cancelled => none

def throwCancelled (i : ℕ) (call : ListCall) : Option HealthRegistry :=
  match call.stage with
  | .waiting _ => some (s.setStage i call .cancelled)
  | .probing _ probes =>
    if probes.all fun p => p.2.isDone then
      some { s.setStage i call .cancelled with lock := none }
    else none
  | .returned _ | .cancelled => none

def step : HealthEvent → Option HealthRegistry
  | .tick seconds => if 0 ≤ seconds then some { s with clock := s.clock + seconds } else none
  | .listPublic => some { s with calls := s.calls ++ [⟨.waiting s.clock, false⟩] }
  | .acquire i => s.calls[i]?.bind fun call => s.acquire i call
  | .startProbe i workerId => s.calls[i]?.bind fun call => s.startProbe i call workerId
  | .endProbe i workerId result => s.calls[i]?.bind fun call => s.endProbe i call workerId result
  | .record i => s.calls[i]?.bind fun call => s.record i call
  | .cancel i => s.calls[i]?.bind fun call => s.cancel i call
  | .throwCancelled i => s.calls[i]?.bind fun call =>
    if call.cancelRequested then s.throwCancelled i call else none

/-- A new registry, at any time.  A dictionary keeps the place of a key that comes again. -/
def machine (workers : List WorkerConfig) (healthCacheSeconds : ℚ) (clock : ℚ) :
    Runs.Machine HealthRegistry HealthEvent where
  start := {
    workers := (workers.map WorkerConfig.workerId).eraseDups
    health := fun _ => ⟨none, 0, none⟩
    healthCacheSeconds := healthCacheSeconds
    lock := none
    calls := []
    clock := clock }
  step := step

inductive Moves (s : HealthRegistry) : HealthEvent → HealthRegistry → Prop
  | tick {seconds : ℚ} (hseconds : 0 ≤ seconds) :
    Moves s (.tick seconds) { s with clock := s.clock + seconds }
  | listed : Moves s .listPublic { s with calls := s.calls ++ [⟨.waiting s.clock, false⟩] }
  | fresh (i : ℕ) (call : ListCall) (now : ℚ) (hat : s.calls[i]? = some call)
    (hstage : call.stage = .waiting now) (hlock : s.lock = none)
    (hnone : s.workers.filter (s.stale now) = []) :
    Moves s (.acquire i) (s.setStage i call (.returned s.snapshot))
  | acquired {i : ℕ} {call : ListCall} {now : ℚ} (hat : s.calls[i]? = some call)
    (hstage : call.stage = .waiting now) (hlock : s.lock = none) :
    Moves s (.acquire i) { s.setStage i call (.probing now
      ((s.workers.filter (s.stale now)).map fun w => (w, .created))) with lock := some i }
  | probed {e : HealthEvent} {i : ℕ} {call : ListCall} {now : ℚ} {probes : List (String × Probe)}
    {workerId : String} {probe : Probe} (hat : s.calls[i]? = some call)
    (hstage : call.stage = .probing now probes) :
    Moves s e (s.setStage i call (.probing now (setProbe probes workerId probe)))
  | recorded (i : ℕ) (call : ListCall) (now : ℚ) (probes : List (String × Probe))
    (hat : s.calls[i]? = some call) (hstage : call.stage = .probing now probes)
    (hdone : probes.all fun p => p.2.isDone) :
    Moves s (.record i) (setStage
      { s with health := recordAll s.clock probes s.health, lock := none } i call
      (.returned { s with health := recordAll s.clock probes s.health, lock := none }.snapshot))
  | told {i : ℕ} {call : ListCall} (hat : s.calls[i]? = some call) :
    Moves s (.cancel i) (s.setCall i { call with cancelRequested := true })
  | gaveUp {i : ℕ} {call : ListCall} {now : ℚ} (hat : s.calls[i]? = some call)
    (hstage : call.stage = .waiting now) :
    Moves s (.throwCancelled i) (s.setStage i call .cancelled)
  | released {i : ℕ} {call : ListCall} {now : ℚ} {probes : List (String × Probe)}
    (hat : s.calls[i]? = some call) (hstage : call.stage = .probing now probes) :
    Moves s (.throwCancelled i) { s.setStage i call .cancelled with lock := none }

variable {s : HealthRegistry} {s' : HealthRegistry} {i : ℕ} {call : ListCall}

theorem step_moves {e : HealthEvent} (h : s.step e = some s') : s.Moves e s' := by
  cases e with
  | tick seconds =>
    simp only [step] at h
    split at h
    · next hseconds =>
      cases h
      exact .tick hseconds
    · cases h
  | listPublic =>
    cases h
    exact .listed
  | acquire i =>
    obtain ⟨call, hat, h⟩ := Option.bind_eq_some_iff.mp h
    unfold acquire at h
    split at h
    · next now hstage =>
      split at h
      · next hfree =>
        simp only at h
        split at h
        · next hnone =>
          cases h
          exact .fresh i call now hat hstage hfree.1 hnone
        · cases h
          exact .acquired hat hstage hfree.1
      · cases h
    · cases h
    · cases h
    · cases h
  | startProbe i workerId =>
    obtain ⟨call, hat, h⟩ := Option.bind_eq_some_iff.mp h
    unfold startProbe at h
    split at h
    · next now probes hstage =>
      split at h
      · cases h
        exact .probed hat hstage
      · cases h
    · cases h
    · cases h
    · cases h
  | endProbe i workerId result =>
    obtain ⟨call, hat, h⟩ := Option.bind_eq_some_iff.mp h
    unfold endProbe at h
    split at h
    · next now probes hstage =>
      split at h
      · cases h
        exact .probed hat hstage
      · cases h
    · cases h
    · cases h
    · cases h
  | record i =>
    obtain ⟨call, hat, h⟩ := Option.bind_eq_some_iff.mp h
    unfold record at h
    split at h
    · next now probes hstage =>
      split at h
      · next hdone =>
        cases h
        exact .recorded i call now probes hat hstage hdone.2
      · cases h
    · cases h
    · cases h
    · cases h
  | cancel i =>
    obtain ⟨call, hat, h⟩ := Option.bind_eq_some_iff.mp h
    unfold cancel at h
    split at h
    · cases h
      exact .told hat
    · cases h
      exact .told hat
    · cases h
    · cases h
  | throwCancelled i =>
    obtain ⟨call, hat, h⟩ := Option.bind_eq_some_iff.mp h
    split at h
    · unfold throwCancelled at h
      split at h
      · next now hstage =>
        cases h
        exact .gaveUp hat hstage
      · next now probes hstage =>
        split at h
        · cases h
          exact .released hat hstage
        · cases h
      · cases h
      · cases h
    · cases h

theorem setProbe_fst (probes : List (String × Probe)) (workerId : String) (probe : Probe) :
    (setProbe probes workerId probe).map Prod.fst = probes.map Prod.fst := by
  unfold setProbe
  rw [List.map_map]
  refine List.map_congr_left fun p _ => ?_
  show (if p.1 = workerId then (workerId, probe) else p).1 = p.1
  split
  · next h => exact h.symm
  · rfl

def Holds (s : HealthRegistry) (i : ℕ) : ListStage → Prop
  | .waiting now => now ≤ s.clock
  | .probing now probes => s.lock = some i ∧ now ≤ s.clock ∧
      probes.map Prod.fst = s.workers.filter (s.stale now)
  | .returned healthByWorker => healthByWorker.map Prod.fst = s.workers ∧
      ∀ entry ∈ healthByWorker, entry.2.healthy ≠ none
  | .cancelled => True

structure Inv (s : HealthRegistry) : Prop where
  unique : s.workers.Nodup
  calls : ∀ (i : ℕ) (call : ListCall), s.calls[i]? = some call → s.Holds i call.stage

theorem Holds.frame {stage : ListStage} (h : s.Holds i stage) (hworkers : s'.workers = s.workers)
    (hclock : s.clock ≤ s'.clock)
    (hrest : s.lock = some i → s'.lock = s.lock ∧ s'.stale = s.stale) : s'.Holds i stage := by
  cases stage with
  | waiting now => exact le_trans h hclock
  | probing now probes =>
    obtain ⟨hlock, hnow, hprobes⟩ := h
    obtain ⟨hlock', hstale⟩ := hrest hlock
    refine ⟨hlock'.trans hlock, le_trans hnow hclock, ?_⟩
    rw [hprobes, hworkers, hstale]
  | returned healthByWorker => exact ⟨h.1.trans hworkers.symm, h.2⟩
  | cancelled => trivial

theorem Inv.set (h : s.Inv) {call' : ListCall} (hworkers : s'.workers = s.workers)
    (hclock : s.clock ≤ s'.clock) (hcalls : s'.calls = s.calls.set i call')
    (hrest : ∀ j ≠ i, s.lock = some j → s'.lock = s.lock ∧ s'.stale = s.stale)
    (hself : s'.Holds i call'.stage) : s'.Inv := by
  refine ⟨hworkers ▸ h.unique, fun j c hc => ?_⟩
  rw [hcalls] at hc
  by_cases hj : j = i
  · subst hj
    obtain ⟨hlt, -⟩ := List.getElem?_eq_some_iff.mp hc
    rw [List.length_set] at hlt
    rw [List.getElem?_set_self hlt] at hc
    exact Option.some.inj hc ▸ hself
  · rw [List.getElem?_set_ne (Ne.symm hj)] at hc
    exact (h.calls j c hc).frame hworkers hclock (hrest j hj)

theorem recordAll_of_not_mem {checkedAt : ℚ} {probes : List (String × Probe)}
    {health : String → HealthState} {w : String} (h : w ∉ probes.map Prod.fst) :
    recordAll checkedAt probes health w = health w := by
  induction probes generalizing health with
  | nil => rfl
  | cons p rest ih =>
    obtain ⟨w', probe⟩ := p
    rw [List.map_cons, List.mem_cons, not_or] at h
    cases probe with
    | created => exact ih h.2
    | running => exact ih h.2
    | done result =>
      rw [recordAll, ih h.2, Function.update_of_ne h.1]

theorem recordAll_healthy {checkedAt : ℚ} {probes : List (String × Probe)}
    {health : String → HealthState} {w : String} (hdone : probes.all fun p => p.2.isDone)
    (h : w ∈ probes.map Prod.fst) : (recordAll checkedAt probes health w).healthy ≠ none := by
  induction probes generalizing health with
  | nil => cases h
  | cons p rest ih =>
    obtain ⟨w', probe⟩ := p
    rw [List.all_cons, Bool.and_eq_true] at hdone
    cases probe with
    | created => cases hdone.1
    | running => cases hdone.1
    | done result =>
      rw [recordAll]
      by_cases hrest : w ∈ rest.map Prod.fst
      · exact ih hdone.2 hrest
      · obtain rfl : w = w' := (List.mem_cons.mp h).resolve_right hrest
        rw [recordAll_of_not_mem hrest, Function.update_self]
        cases result <;> nofun

theorem healthy_of_not_stale {now : ℚ} {w : String} (h : s.stale now w = false) :
    (s.health w).healthy ≠ none := by
  unfold stale at h
  rw [Bool.or_eq_false_iff] at h
  intro hnone
  rw [hnone] at h
  exact nomatch h.1

theorem holds_snapshot (h : ∀ w ∈ s.workers, (s.health w).healthy ≠ none) :
    s.Holds i (.returned s.snapshot) := by
  constructor
  · unfold snapshot
    rw [List.map_map]
    exact List.map_id _
  · intro entry hentry
    obtain ⟨w, hw, rfl⟩ := List.mem_map.mp hentry
    exact h w hw

theorem Moves.inv {e : HealthEvent} (h : s.Moves e s') (hi : s.Inv) : s'.Inv := by
  cases h with
  | tick hseconds =>
    refine ⟨hi.unique, fun j c hc => (hi.calls j c hc).frame rfl ?_ fun _ => ⟨rfl, rfl⟩⟩
    exact le_add_of_nonneg_right hseconds
  | listed =>
    refine ⟨hi.unique, fun j c hc => ?_⟩
    by_cases hj : j < s.calls.length
    · rw [List.getElem?_append_left hj] at hc
      exact (hi.calls j c hc).frame rfl le_rfl fun _ => ⟨rfl, rfl⟩
    · rw [List.getElem?_append_right (Nat.le_of_not_lt hj)] at hc
      obtain rfl := List.mem_singleton.mp (List.mem_of_getElem? hc)
      exact le_refl s.clock
  | fresh i call now hat hstage hlock hnone =>
    refine hi.set rfl le_rfl rfl (fun _ _ _ => ⟨rfl, rfl⟩) (holds_snapshot fun w hw => ?_)
    have hfresh : s.stale now w = false :=
      eq_false_of_ne_true (List.filter_eq_nil_iff.mp hnone w hw)
    exact healthy_of_not_stale hfresh
  | acquired hat hstage hlock =>
    have hnow := hi.calls _ _ hat
    rw [hstage] at hnow
    refine hi.set rfl le_rfl rfl (fun j _ hj => nomatch hlock.symm.trans hj) ⟨rfl, hnow, ?_⟩
    rw [List.map_map]
    exact List.map_id _
  | probed hat hstage =>
    have hholds := hi.calls _ _ hat
    rw [hstage] at hholds
    obtain ⟨hlock, hnow, hprobes⟩ := hholds
    exact hi.set rfl le_rfl rfl (fun _ _ _ => ⟨rfl, rfl⟩)
      ⟨hlock, hnow, (setProbe_fst _ _ _).trans hprobes⟩
  | recorded i call now probes hat hstage hdone =>
    have hholds := hi.calls _ _ hat
    rw [hstage] at hholds
    obtain ⟨hlock, hnow, hprobes⟩ := hholds
    refine hi.set rfl le_rfl rfl (fun j hne hj => ?_) (holds_snapshot fun w hw => ?_)
    · exact absurd (Option.some.inj (hj.symm.trans hlock)) hne
    · -- The worker was stale and has been probed, or it had a health and has kept it.
      by_cases hmem : w ∈ probes.map Prod.fst
      · exact recordAll_healthy hdone hmem
      · show (recordAll s.clock probes s.health w).healthy ≠ none
        rw [recordAll_of_not_mem hmem]
        rw [hprobes] at hmem
        have hfresh : s.stale now w = false :=
          eq_false_of_ne_true fun hstale => hmem (List.mem_filter.mpr ⟨hw, hstale⟩)
        exact healthy_of_not_stale hfresh
  | told hat =>
    have hholds := hi.calls _ _ hat
    exact hi.set rfl le_rfl rfl (fun _ _ _ => ⟨rfl, rfl⟩) hholds
  | gaveUp hat hstage => exact hi.set rfl le_rfl rfl (fun _ _ _ => ⟨rfl, rfl⟩) trivial
  | released hat hstage =>
    have hholds := hi.calls _ _ hat
    rw [hstage] at hholds
    refine hi.set rfl le_rfl rfl (fun j hne hj => ?_) trivial
    exact absurd (Option.some.inj (hj.symm.trans hholds.1)) hne

variable {workers : List WorkerConfig} {cacheSeconds clock : ℚ}

theorem nodup_eraseDups (l : List String) : l.eraseDups.Nodup := by
  induction hn : l.length using Nat.strong_induction_on generalizing l with
  | h n ih =>
    cases l with
    | nil => exact List.nodup_nil
    | cons a l =>
      rw [List.eraseDups_cons, List.nodup_cons]
      have hlt : (l.filter fun b => !b == a).length < n := by
        have hle := List.length_filter_le (fun b => !b == a) l
        rw [List.length_cons] at hn
        omega
      exact ⟨by simp, ih _ hlt _ rfl⟩

theorem inv_start : (machine workers cacheSeconds clock).start.Inv :=
  ⟨nodup_eraseDups _, fun _ _ hc => nomatch hc⟩

theorem inv_of_reachable {ok : HealthRegistry → HealthEvent → Prop}
    (h : (machine workers cacheSeconds clock).Reachable ok s) : s.Inv :=
  h.invariant inv_start fun _ _ _ _ hi hs => (step_moves hs).inv hi

theorem Moves.workers_eq {e : HealthEvent} (h : s.Moves e s') : s'.workers = s.workers := by
  cases h <;> rfl

theorem workers_of_reachable {ok : HealthRegistry → HealthEvent → Prop}
    (h : (machine workers cacheSeconds clock).Reachable ok s) :
    s.workers = (workers.map WorkerConfig.workerId).eraseDups :=
  h.invariant (I := fun s => s.workers = (workers.map WorkerConfig.workerId).eraseDups) rfl
    fun _ _ _ _ hi hs => (step_moves hs).workers_eq.trans hi

/-- The probe at the place `k` of the call `i` is one of the worker, and it runs. -/
def ProbeRuns (s : HealthRegistry) (workerId : String) (i k : ℕ) : Prop :=
  ∃ call now probes, s.calls[i]? = some call ∧ call.stage = .probing now probes ∧
    probes[k]? = some (workerId, .running)

/-- What is asked of the probes: those of one worker do not overlap, one of a worker with a health
starts when that is older than the cache keeps it, and what is returned has a health for each
worker. -/
structure Cached (workers : List WorkerConfig) (s : HealthRegistry) : Prop where
  alone : ∀ workerId i k j l, s.ProbeRuns workerId i k → s.ProbeRuns workerId j l → i = j ∧ k = l
  late : ∀ i workerId s', s.step (.startProbe i workerId) = some s' →
    (s.health workerId).healthy ≠ none →
      s.clock - (s.health workerId).checkedAt > s.healthCacheSeconds
  recorded : ∀ call ∈ s.calls, ∀ healthByWorker, call.stage = .returned healthByWorker →
    ∀ worker ∈ workers, ∃ health, (worker.workerId, health) ∈ healthByWorker ∧
      health.healthy ≠ none

theorem Inv.alone (hi : s.Inv) {workerId : String} {i j k l : ℕ} (h : s.ProbeRuns workerId i k)
    (h' : s.ProbeRuns workerId j l) : i = j ∧ k = l := by
  obtain ⟨call, now, probes, hat, hstage, hprobe⟩ := h
  obtain ⟨call', now', probes', hat', hstage', hprobe'⟩ := h'
  have hholds := hi.calls i call hat
  have hholds' := hi.calls j call' hat'
  rw [hstage] at hholds
  rw [hstage'] at hholds'
  -- Both calls hold the lock, so they are one, and it probes each worker once.
  obtain rfl : i = j := Option.some.inj (hholds.1.symm.trans hholds'.1)
  obtain rfl := Option.some.inj (hat.symm.trans hat')
  obtain ⟨rfl, rfl⟩ := ListStage.probing.inj (hstage.symm.trans hstage')
  have hnodup : (probes.map Prod.fst).Nodup := hholds.2.2 ▸ hi.unique.filter _
  have hk : (probes.map Prod.fst)[k]? = some workerId := by rw [List.getElem?_map, hprobe]; rfl
  have hl : (probes.map Prod.fst)[l]? = some workerId := by rw [List.getElem?_map, hprobe']; rfl
  have hlt := (List.getElem?_eq_some_iff.mp hk).1
  exact ⟨rfl, (List.getElem?_inj hlt hnodup).mp (hk.trans hl.symm)⟩

theorem Inv.late (hi : s.Inv) {workerId : String} (h : s.step (.startProbe i workerId) = some s')
    (hhealthy : (s.health workerId).healthy ≠ none) :
    s.clock - (s.health workerId).checkedAt > s.healthCacheSeconds := by
  obtain ⟨call, hat, h⟩ := Option.bind_eq_some_iff.mp h
  have hholds := hi.calls i call hat
  unfold startProbe at h
  split at h
  · next now probes hstage =>
    split at h
    · next hcreated =>
      rw [hstage] at hholds
      have hmem : workerId ∈ probes.map Prod.fst := by
        obtain ⟨before, after, hprobes, -⟩ := List.lookup_eq_some_iff.mp hcreated.2
        rw [hprobes]
        simp
      obtain ⟨-, hnow, hprobes⟩ := hholds
      rw [hprobes] at hmem
      have hstale : s.stale now workerId = true := (List.mem_filter.mp hmem).2
      unfold stale at hstale
      rw [Bool.or_eq_true, Option.isNone_iff_eq_none, decide_eq_true_eq] at hstale
      -- The time that was read is not after the clock.
      have hold := hstale.resolve_left hhealthy
      exact lt_of_lt_of_le hold (sub_le_sub_right hnow _)
    · cases h
  · cases h
  · cases h
  · cases h

/-- In every state of every run, the probes are cached as they should be. -/
theorem health_cached (workers : List WorkerConfig) (cacheSeconds clock : ℚ)
    {s : HealthRegistry} (h : (machine workers cacheSeconds clock).Reachable Runs.anyStep s) :
    s.Cached workers := by
  have hi := inv_of_reachable h
  refine ⟨fun w i k j l => hi.alone, fun i w s' => hi.late, ?_⟩
  intro call hcall healthByWorker hstage worker hworker
  obtain ⟨i, hat⟩ := List.mem_iff_getElem?.mp hcall
  have hholds := hi.calls i call hat
  rw [hstage] at hholds
  have hmem : worker.workerId ∈ s.workers := by
    rw [workers_of_reachable h, List.mem_eraseDups]
    exact List.mem_map_of_mem hworker
  rw [← hholds.1] at hmem
  obtain ⟨⟨w, health⟩, hentry, rfl⟩ := List.mem_map.mp hmem
  exact ⟨health, hentry, hholds.2 _ hentry⟩

/-- A call that is cancelled while its probe runs, and one that has waited for the lock with an old
time and probes again. -/
def Sample.twoLists : List HealthEvent :=
  [.listPublic, .listPublic, .acquire 0, .startProbe 0 "w", .cancel 0, .tick 7,
    .endProbe 0 "w" .cancelled, .throwCancelled 0, .acquire 1, .startProbe 1 "w",
    .endProbe 1 "w" (.returned true), .record 1]

theorem twoLists_cached : ∃ s, ((machine Sample.workers 5 0).run Runs.anyStep
    (machine Sample.workers 5 0).start Sample.twoLists) = some s ∧
      s.calls = [⟨.cancelled, true⟩, ⟨.returned [("w", ⟨some true, 7, none⟩)], false⟩] ∧
      s.Cached Sample.workers := by
  have hsome : (((machine Sample.workers 5 0).run Runs.anyStep
      (machine Sample.workers 5 0).start Sample.twoLists).map HealthRegistry.calls) =
        some [⟨.cancelled, true⟩, ⟨.returned [("w", ⟨some true, 7, none⟩)], false⟩] := by
    decide +kernel
  obtain ⟨s, hs, hcalls⟩ := Option.map_eq_some_iff.mp hsome
  exact ⟨s, hs, hcalls, health_cached Sample.workers 5 0 (Runs.Machine.reachable_of_run hs)⟩

end HealthRegistry

end WorkerBridge
