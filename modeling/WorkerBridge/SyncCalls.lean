import WorkerBridge.Bridge
import WorkerBridge.Reload

namespace WorkerBridge

/-- Where a synchronous call stands.  With `admitted` it has its slot of
`_sync_limit` and has not come to `workers.call`. -/
inductive SyncStage
  | waiting (ticket : ℕ)
  | admitted
  | calling (j : ℕ)
  | ended (result : Option (Except PyExc Json))

namespace SyncStage

def isEnded : SyncStage → Bool
  | ended _ => true
  | waiting _ | admitted | calling _ => false

def isCalling : SyncStage → Bool
  | calling _ => true
  | waiting _ | admitted | ended _ => false

/-- It has a slot of `_sync_limit`. -/
def holds : SyncStage → Bool
  | admitted | calling _ => true
  | waiting _ | ended _ => false

end SyncStage

structure SyncCaller where
  workerId : String
  stage : SyncStage
  cancelRequested : Bool

/-- A manager and its registry, with the synchronous calls they have accepted. -/
structure SyncManager where
  limits : LimitsConfig
  syncLimit : FifoSemaphore
  callers : List SyncCaller
  traffic : Traffic

inductive SyncEvent
  | tick (seconds : ℚ)
  | call (workerId : String) (prompt : Text)
  | goOn (i : ℕ)
  | proceed (i : ℕ)
  | respond (i : ℕ) (response : Except PyExc Json)
  | cancel (i : ℕ)
  | throwCancelled (i : ℕ)

namespace SyncManager

variable (s : SyncManager)

def enforceSyncLimits (reg : WorkerRegistry) (workerId : String) : Except PyExc Unit :=
  match s.limits.perWorkerActiveTasks with
  | none => .ok ()
  | some perWorkerActive =>
    if reg.active workerId ≥ perWorkerActive then
      .error (.saturation "worker sync capacity reached".toList 503 "worker_sync")
    else .ok ()

/-- `call` up to its first await.  A text is that of an answer whose `ok` is false. -/
def check (host : Host) (reg : WorkerRegistry) (workerId : String) (prompt : Text) :
    Except PyExc (Option Text) := do
  let worker ← reg.get workerId
  let _ ← resolveWorkingDirectory host worker prompt
  if Mode.sync ∉ worker.allowedModes then
    .ok (some ("mode sync is not allowed for worker ".toList ++ workerId.toList))
  else do
    s.enforceSyncLimits reg workerId
    .ok none

def accepts (host : Host) (workerId : String) (prompt : Text) : Bool :=
  match s.traffic.registries[0]?.map fun reg => s.check host reg workerId prompt with
  | some (.ok none) => true
  | _ => false

def setCaller (i : ℕ) (caller : SyncCaller) : SyncManager :=
  { s with callers := s.callers.set i caller }

/-- The caller `i` after a step of its call `j`.  It leaves `_sync_limit` with the end of the call,
and counts the task if there is a result. -/
def follow (i : ℕ) (caller : SyncCaller) (j : ℕ) : SyncManager :=
  match s.traffic.calls[j]?.map Call.phase with
  | some (.ended result) =>
    { s.setCaller i { caller with stage := .ended result } with
      syncLimit := s.syncLimit.release
      traffic := { s.traffic with
        metrics := match result with
          | some (.ok _) => s.traffic.metrics.incTaskCreated caller.workerId .sync
          | _ => s.traffic.metrics } }
  | _ => s.setCaller i { caller with stage := .calling j }

def enter (i : ℕ) (caller : SyncCaller) : Option SyncManager :=
  (s.traffic.step (.call 0 caller.workerId)).map fun traffic =>
    follow { s with traffic := traffic } i caller s.traffic.calls.length

/-- A step of the call of the caller `i`. -/
def callStep (i : ℕ) (caller : SyncCaller) (e : ℕ → TrafficEvent) : Option SyncManager :=
  match caller.stage with
  | .calling j => (s.traffic.step (e j)).map fun traffic =>
    follow { s with traffic := traffic } i caller j
  | .waiting _ | .admitted | .ended _ => none

/-- `async with self._sync_limit`. -/
def accept (workerId : String) : Option SyncManager :=
  if s.syncLimit.locked then
    some { s with
      syncLimit := s.syncLimit.enqueue
      callers := s.callers ++ [⟨workerId, .waiting s.syncLimit.tickets, false⟩] }
  else
    enter { s with
        syncLimit := s.syncLimit.take
        callers := s.callers ++ [⟨workerId, .admitted, false⟩] }
      s.callers.length ⟨workerId, .admitted, false⟩

/-- A waiter that was granted a slot of `_sync_limit` goes on. -/
def goOn (i : ℕ) (caller : SyncCaller) : Option SyncManager :=
  match caller.stage with
  | .waiting ticket =>
    if caller.cancelRequested = false ∧ s.syncLimit.future ticket = some .granted then
      let caller := { caller with stage := .admitted }
      enter { s.setCaller i caller with syncLimit := s.syncLimit.resume ticket } i caller
    else none
  | .admitted | .calling _ | .ended _ => none

/-- `cancel()` on the coroutine of the caller. -/
def cancel (i : ℕ) (caller : SyncCaller) : Option SyncManager :=
  let caller := { caller with cancelRequested := true }
  match caller.stage with
  | .waiting ticket =>
    some { s.setCaller i caller with syncLimit := s.syncLimit.cancelFuture ticket }
  | .calling _ => (s.setCaller i caller).callStep i caller .cancel
  | .admitted | .ended _ => none

def throwCancelled (i : ℕ) (caller : SyncCaller) : Option SyncManager :=
  match caller.stage with
  | .waiting ticket =>
    some { s.setCaller i { caller with stage := .ended none } with
      syncLimit := s.syncLimit.abandon ticket }
  | .calling _ => s.callStep i caller .throwCancelled
  | .admitted | .ended _ => none

def step (host : Host) : SyncEvent → Option SyncManager
  | .tick seconds => (s.traffic.step (.tick seconds)).map fun traffic => { s with traffic := traffic }
  -- A call that is refused, or that raises, changes nothing.
  | .call workerId prompt => if s.accepts host workerId prompt then s.accept workerId else some s
  | .goOn i => s.callers[i]?.bind fun caller => s.goOn i caller
  | .proceed i => s.callers[i]?.bind fun caller => s.callStep i caller .resume
  | .respond i response => s.callers[i]?.bind fun caller => s.callStep i caller (.respond · response)
  | .cancel i => s.callers[i]?.bind fun caller => s.cancel i caller
  | .throwCancelled i => s.callers[i]?.bind fun caller =>
    if caller.cancelRequested then s.throwCancelled i caller else none

def machine (host : Host) (workers : List WorkerConfig) (breaker : CircuitBreakerConfig)
    (limits : LimitsConfig) : Runs.Machine SyncManager SyncEvent where
  start := ⟨limits, .new limits.syncActiveTasks, [], (Traffic.machine workers breaker).start⟩
  step s := s.step host

def unfinished (workerId : String) : ℕ :=
  s.callers.countP fun c => decide (c.workerId = workerId) && !c.stage.isEnded

/-- The call passes the check while as many callers of its worker as the limit
allows are not over, and neither the slots of the worker nor those of
`_sync_limit` keep to the limit. -/
def crowds (host : Host) : SyncEvent → Bool
  | .call workerId prompt => s.accepts host workerId prompt &&
      s.limits.perWorkerActiveTasks.any fun k => decide (k ≤ s.unfinished workerId) &&
        (decide (k < s.traffic.slots 0 workerId) && decide (k < s.limits.syncActiveTasks))
  | _ => false

def paced (host : Host) (s : SyncManager) (e : SyncEvent) : Prop := s.crowds host e = false

instance (host : Host) (s : SyncManager) (e : SyncEvent) : Decidable (paced host s e) :=
  inferInstanceAs (Decidable (_ = _))

inductive Moves (host : Host) (s : SyncManager) : SyncEvent → SyncManager → Prop
  | tick {seconds : ℚ} {t : Traffic} (hstep : s.traffic.step (.tick seconds) = some t) :
      Moves host s (.tick seconds) { s with traffic := t }
  | refused {workerId : String} {prompt : Text} : Moves host s (.call workerId prompt) s
  | queued {workerId : String} {prompt : Text} (haccepts : s.accepts host workerId prompt = true) :
      Moves host s (.call workerId prompt) { s with
        syncLimit := s.syncLimit.enqueue
        callers := s.callers ++ [⟨workerId, .waiting s.syncLimit.tickets, false⟩] }
  | entered {workerId : String} {prompt : Text} {s' : SyncManager}
      (haccepts : s.accepts host workerId prompt = true) (hfree : s.syncLimit.locked = false)
      (henter : enter { s with
          syncLimit := s.syncLimit.take
          callers := s.callers ++ [⟨workerId, .admitted, false⟩] }
        s.callers.length ⟨workerId, .admitted, false⟩ = some s') :
      Moves host s (.call workerId prompt) s'
  | admitted {i ticket : ℕ} {caller : SyncCaller} {s' : SyncManager}
      (hat : s.callers[i]? = some caller) (hstage : caller.stage = .waiting ticket)
      (hgrant : s.syncLimit.future ticket = some .granted)
      (henter : enter { s.setCaller i { caller with stage := .admitted } with
          syncLimit := s.syncLimit.resume ticket }
        i { caller with stage := .admitted } = some s') :
      Moves host s (.goOn i) s'
  | called {e : SyncEvent} {f : ℕ → TrafficEvent} {i : ℕ} {caller : SyncCaller} {s' : SyncManager}
      (hat : s.callers[i]? = some caller) (hplace : ∀ j, (f j).place = some j)
      (hcall : s.callStep i caller f = some s') :
      Moves host s e s'
  | told {i ticket : ℕ} {caller : SyncCaller} (hat : s.callers[i]? = some caller) :
      Moves host s (.cancel i) { s.setCaller i { caller with cancelRequested := true } with
        syncLimit := s.syncLimit.cancelFuture ticket }
  | toldCall {i : ℕ} {caller : SyncCaller} {s' : SyncManager} (hat : s.callers[i]? = some caller)
      (hcall : (s.setCaller i { caller with cancelRequested := true }).callStep i
        { caller with cancelRequested := true } .cancel = some s') :
      Moves host s (.cancel i) s'
  | thrown {i ticket : ℕ} {caller : SyncCaller} (hat : s.callers[i]? = some caller)
      (hstage : caller.stage = .waiting ticket) :
      Moves host s (.throwCancelled i) { s.setCaller i { caller with stage := .ended none } with
        syncLimit := s.syncLimit.abandon ticket }

variable {s : SyncManager} {s' : SyncManager} {t : Traffic} {host : Host}
  {workers : List WorkerConfig} {limits : LimitsConfig} {i j : ℕ} {caller : SyncCaller} {c : Call}
  {workerId : String}

theorem step_moves {e : SyncEvent} (h : s.step host e = some s') : s.Moves host e s' := by
  cases e with
  | tick seconds =>
    obtain ⟨t, hstep, rfl⟩ := Option.map_eq_some_iff.mp h
    exact .tick hstep
  | call workerId prompt =>
    simp only [step] at h
    split at h
    · next haccepts =>
      unfold accept at h
      split at h
      · cases h
        exact .queued haccepts
      · next hlocked => exact .entered haccepts (Bool.not_eq_true _ ▸ hlocked) h
    · cases h
      exact .refused
  | goOn i =>
    obtain ⟨caller, hat, hgo⟩ := Option.bind_eq_some_iff.mp h
    unfold goOn at hgo
    split at hgo
    · next ticket hstage =>
      split at hgo
      · next hgrant => exact .admitted hat hstage hgrant.2 hgo
      · cases hgo
    · cases hgo
    · cases hgo
    · cases hgo
  | proceed i =>
    obtain ⟨caller, hat, hcall⟩ := Option.bind_eq_some_iff.mp h
    exact .called hat (fun _ => rfl) hcall
  | respond i response =>
    obtain ⟨caller, hat, hcall⟩ := Option.bind_eq_some_iff.mp h
    exact .called hat (fun _ => rfl) hcall
  | cancel i =>
    obtain ⟨caller, hat, hcancel⟩ := Option.bind_eq_some_iff.mp h
    unfold cancel at hcancel
    simp only at hcancel
    split at hcancel
    · cases hcancel
      exact .told hat
    · exact .toldCall hat hcancel
    · cases hcancel
    · cases hcancel
  | throwCancelled i =>
    obtain ⟨caller, hat, hthrow⟩ := Option.bind_eq_some_iff.mp h
    split at hthrow
    · unfold throwCancelled at hthrow
      split at hthrow
      · next ticket hstage =>
        cases hthrow
        exact .thrown hat hstage
      · exact .called hat (fun _ => rfl) hthrow
      · cases hthrow
      · cases hthrow
    · cases hthrow

def callsWorker (workerId : String) (caller : SyncCaller) : Bool :=
  decide (caller.workerId = workerId) && caller.stage.isCalling

theorem isCalling_iff {stage : SyncStage} : stage.isCalling = true ↔ ∃ j, stage = .calling j := by
  cases stage <;> simp [SyncStage.isCalling]

/-- Every call that is under way is that of one caller, which has a slot. -/
structure Inv (workers : List WorkerConfig) (limits : LimitsConfig) (s : SyncManager) : Prop where
  fixed : s.limits = limits
  balanced : s.traffic.Balanced
  workers : s.traffic.registries.map WorkerRegistry.workers = [workers]
  linked : ∀ (i j : ℕ) (caller : SyncCaller), s.callers[i]? = some caller →
    caller.stage = .calling j → ∃ c, s.traffic.calls[j]? = some c ∧
      c.workerId = caller.workerId ∧ c.phase.isEnded = false
  once : ∀ (i i' j : ℕ) (caller caller' : SyncCaller), s.callers[i]? = some caller →
    s.callers[i']? = some caller' → caller.stage = .calling j → caller'.stage = .calling j → i = i'
  count : ∀ workerId, s.traffic.underWay workerId = s.callers.countP (callsWorker workerId)
  slots : s.syncLimit.free + s.callers.countP (fun c => c.stage.holds) = limits.syncActiveTasks

theorem inv_start {breaker : CircuitBreakerConfig} :
    (machine host workers breaker limits).start.Inv workers limits := by
  refine ⟨rfl, Traffic.balanced_start, rfl, ?_, ?_, fun _ => rfl, rfl⟩
  · intro i j caller hat
    cases hat
  · intro i i' j caller caller' hat
    cases hat

theorem setCaller_self (hat : s.callers[i]? = some caller) {caller' : SyncCaller} :
    (s.callers.set i caller')[i]? = some caller' :=
  List.getElem?_set_self (List.getElem?_eq_some_iff.mp hat).1

theorem setCaller_cases {callers : List SyncCaller} (hat : callers[i]? = some caller)
    {caller' d : SyncCaller} {k : ℕ} (hd : (callers.set i caller')[k]? = some d) :
    (k = i ∧ d = caller') ∨ (k ≠ i ∧ callers[k]? = some d) := by
  by_cases he : k = i
  · subst he
    rw [List.getElem?_set_self (List.getElem?_eq_some_iff.mp hat).1] at hd
    exact Or.inl ⟨rfl, (Option.some.inj hd).symm⟩
  · rw [List.getElem?_set_ne (Ne.symm he)] at hd
    exact Or.inr ⟨he, hd⟩

/-- The call `j` of a caller with a slot has moved on alone, to `c`. -/
structure Followed (s : SyncManager) (t : Traffic) (i j : ℕ) (caller : SyncCaller) (c : Call) :
    Prop where
  caller_at : s.callers[i]? = some caller
  holds : caller.stage.holds = true
  balanced : t.Balanced
  workers : t.registries.map WorkerRegistry.workers =
    s.traffic.registries.map WorkerRegistry.workers
  call : t.calls[j]? = some c
  workerId : c.workerId = caller.workerId
  others : ∀ k d, k ≠ j → s.traffic.calls[k]? = some d → t.calls[k]? = some d
  own : ∀ (k : ℕ) (d : SyncCaller), s.callers[k]? = some d → d.stage = .calling j → k = i
  count : ∀ workerId, t.underWay workerId + (if callsWorker workerId caller then 1 else 0) =
    s.traffic.underWay workerId + if decide (c.workerId = workerId) && !c.phase.isEnded then 1 else 0

namespace Followed

variable {stage : SyncStage}

theorem rest (hf : s.Followed t i j caller c) (h : s.Inv workers limits) {k k' : ℕ} {d : SyncCaller}
    (hne : k ≠ i) (hd : s.callers[k]? = some d) (hk' : d.stage = .calling k') :
    k' ≠ j ∧ ∃ c', t.calls[k']? = some c' ∧ c'.workerId = d.workerId ∧ c'.phase.isEnded = false := by
  have hnj : k' ≠ j := by
    intro he
    exact hne (hf.own k d hd (he ▸ hk'))
  obtain ⟨c', hc', hw, hlive⟩ := h.linked k k' d hd hk'
  exact ⟨hnj, c', hf.others k' c' hnj hc', hw, hlive⟩

theorem inv (hf : s.Followed t i j caller c) (h : s.Inv workers limits) {semaphore : FifoSemaphore}
    (hstage : ∀ k, stage = .calling k → k = j) (hcalling : stage.isCalling = !c.phase.isEnded)
    (hslot : semaphore.free + (if stage.holds then 1 else 0) = s.syncLimit.free + 1) :
    Inv workers limits { s.setCaller i { caller with stage := stage } with
      syncLimit := semaphore, traffic := t } := by
  have hlive : ∀ {k}, stage = .calling k → c.phase.isEnded = false := by
    intro k hk
    rw [hk] at hcalling
    exact (Bool.not_eq_true' _).mp hcalling.symm
  refine ⟨h.fixed, hf.balanced, hf.workers.trans h.workers, ?_, ?_, ?_, ?_⟩
  · intro k k' d hd hk'
    rcases setCaller_cases hf.caller_at hd with ⟨-, rfl⟩ | ⟨hne, hd⟩
    · rw [hstage k' hk']
      exact ⟨c, hf.call, hf.workerId, hlive hk'⟩
    · exact (hf.rest h hne hd hk').2
  · intro k₁ k₂ k' d₁ d₂ hd₁ hd₂ hk₁ hk₂
    rcases setCaller_cases hf.caller_at hd₁ with ⟨he₁, rfl⟩ | ⟨hne₁, hd₁⟩ <;>
      rcases setCaller_cases hf.caller_at hd₂ with ⟨he₂, rfl⟩ | ⟨hne₂, hd₂⟩
    · exact he₁.trans he₂.symm
    · exact absurd (hstage k' hk₁) (hf.rest h hne₂ hd₂ hk₂).1
    · exact absurd (hstage k' hk₂) (hf.rest h hne₁ hd₁ hk₁).1
    · exact h.once k₁ k₂ k' d₁ d₂ hd₁ hd₂ hk₁ hk₂
  · intro workerId
    have hset := Traffic.countP_set_add (callsWorker workerId) hf.caller_at
      { caller with stage := stage }
    have hnew : callsWorker workerId { caller with stage := stage } =
        (decide (c.workerId = workerId) && !c.phase.isEnded) := by
      unfold callsWorker
      rw [hcalling, hf.workerId]
    have hmove := hf.count workerId
    rw [h.count workerId] at hmove
    rw [hnew] at hset
    show t.underWay workerId = (s.callers.set i _).countP _
    omega
  · have hset := Traffic.countP_set_add (fun c : SyncCaller => c.stage.holds) hf.caller_at
      { caller with stage := stage }
    have hslots := h.slots
    simp only [hf.holds, if_true] at hset
    show semaphore.free + (s.callers.set i _).countP _ = _
    omega

end Followed

namespace Inv

theorem slots_eq (h : s.Inv workers limits) (workerId : String) :
    s.traffic.slots 0 workerId = WorkerRegistry.capacity workers workerId := by
  have hworkers := h.workers
  unfold Traffic.slots
  cases hregs : s.traffic.registries with
  | nil =>
    rw [hregs] at hworkers
    cases hworkers
  | cons reg rest =>
    rw [hregs, List.map_cons] at hworkers
    rw [← (List.cons.inj hworkers).1]
    rfl

theorem put (h : s.Inv workers limits) (hat : s.callers[i]? = some caller)
    (caller' : SyncCaller) (semaphore : FifoSemaphore)
    (hid : caller'.workerId = caller.workerId)
    (hcalling : ∀ j, caller'.stage = .calling j ↔ caller.stage = .calling j)
    (hslot : semaphore.free + (if caller'.stage.holds then 1 else 0) =
      s.syncLimit.free + if caller.stage.holds then 1 else 0) :
    Inv workers limits { s.setCaller i caller' with syncLimit := semaphore } := by
  have hcases : ∀ (k : ℕ) (d : SyncCaller), (s.callers.set i caller')[k]? = some d →
      ∃ d₀, s.callers[k]? = some d₀ ∧ d.workerId = d₀.workerId ∧
        ∀ j, d.stage = .calling j ↔ d₀.stage = .calling j := by
    intro k d hd
    rcases setCaller_cases hat hd with ⟨rfl, rfl⟩ | ⟨-, hd⟩
    · exact ⟨caller, hat, hid, hcalling⟩
    · exact ⟨d, hd, rfl, fun _ => Iff.rfl⟩
  refine ⟨h.fixed, h.balanced, h.workers, ?_, ?_, ?_, ?_⟩
  · intro k j d hd hj
    obtain ⟨d₀, hd₀, hwid, hstage⟩ := hcases k d hd
    rw [hwid]
    exact h.linked k j d₀ hd₀ ((hstage j).mp hj)
  · intro k k' j d d' hd hd' hj hj'
    obtain ⟨d₀, hd₀, -, hstage⟩ := hcases k d hd
    obtain ⟨d₁, hd₁, -, hstage'⟩ := hcases k' d' hd'
    exact h.once k k' j d₀ d₁ hd₀ hd₁ ((hstage j).mp hj) ((hstage' j).mp hj')
  · intro workerId
    have hsame : callsWorker workerId caller' = callsWorker workerId caller := by
      have hstage : caller'.stage.isCalling = caller.stage.isCalling := by
        rw [Bool.eq_iff_iff, isCalling_iff, isCalling_iff]
        exact exists_congr hcalling
      unfold callsWorker
      rw [hid, hstage]
    have hset := Traffic.countP_set_add (callsWorker workerId) hat caller'
    rw [hsame] at hset
    show s.traffic.underWay workerId = (s.callers.set i caller').countP _
    rw [h.count workerId]
    omega
  · have hset := Traffic.countP_set_add (fun c : SyncCaller => c.stage.holds) hat caller'
    have hslots := h.slots
    show semaphore.free + (s.callers.set i caller').countP _ = _
    omega

theorem append (h : s.Inv workers limits) (caller : SyncCaller) (semaphore : FifoSemaphore)
    (hstage : caller.stage.isCalling = false)
    (hslot : semaphore.free + (if caller.stage.holds then 1 else 0) = s.syncLimit.free) :
    Inv workers limits { s with syncLimit := semaphore, callers := s.callers ++ [caller] } := by
  have hcases : ∀ (k j : ℕ) (d : SyncCaller), (s.callers ++ [caller])[k]? = some d →
      d.stage = .calling j → s.callers[k]? = some d := by
    intro k j d hd hj
    rcases lt_trichotomy k s.callers.length with hk | hk | hk
    · rwa [List.getElem?_append_left hk] at hd
    · subst hk
      simp only [List.getElem?_concat_length, Option.some.injEq] at hd
      rw [hd, hj] at hstage
      cases hstage
    · rw [List.getElem?_eq_none (by simp; omega)] at hd
      cases hd
  refine ⟨h.fixed, h.balanced, h.workers, ?_, ?_, ?_, ?_⟩
  · intro k j d hd hj
    exact h.linked k j d (hcases k j d hd hj) hj
  · intro k k' j d d' hd hd' hj hj'
    exact h.once k k' j d d' (hcases k j d hd hj) (hcases k' j d' hd' hj') hj hj'
  · intro workerId
    have hnot : callsWorker workerId caller = false := by
      unfold callsWorker
      rw [hstage, Bool.and_false]
    simp [h.count workerId, List.countP_append, hnot]
  · have hslots := h.slots
    simp only [List.countP_append, List.countP_singleton]
    omega

theorem follow (h : s.Inv workers limits) (hf : s.Followed t i j caller c) :
    Inv workers limits (SyncManager.follow { s with traffic := t } i caller j) := by
  unfold SyncManager.follow
  simp only [hf.call, Option.map_some]
  split
  · next result hph =>
    have hended : c.phase.isEnded = true := by
      rw [Option.some.inj hph]
      rfl
    -- The metrics are no matter of the calls.
    have hf' : ∀ metrics, s.Followed { t with metrics := metrics } i j caller c := fun _ =>
      { hf with balanced := ⟨hf.balanced.known, hf.balanced.balance⟩ }
    apply (hf' _).inv h
    · intro k hk
      cases hk
    · rw [hended]
      rfl
    · simp [SyncStage.holds]
  · next hph =>
    have hlive : c.phase.isEnded = false := by
      cases hphase : c.phase with
      | waiting | posting => rfl
      | ended result => exact absurd (congrArg some hphase) (hph result)
    apply hf.inv h
    · intro k hk
      exact (SyncStage.calling.inj hk).symm
    · rw [hlive]
      rfl
    · simp [SyncStage.holds]

theorem enter (h : s.Inv workers limits) (hat : s.callers[i]? = some caller)
    (hstage : caller.stage = .admitted) (henter : s.enter i caller = some s') :
    s'.Inv workers limits := by
  obtain ⟨t, hstep, rfl⟩ := Option.map_eq_some_iff.mp henter
  have hm := Traffic.step_moves hstep
  obtain ⟨c, hcalls, hid, -⟩ := hm.called
  have hworkers : t.registries.map WorkerRegistry.workers =
      s.traffic.registries.map WorkerRegistry.workers := by
    rcases hm.workers with hsame | ⟨_, _, he, -⟩
    · exact hsame
    · cases he
  refine h.follow ⟨hat, by rw [hstage]; rfl, hm.balanced h.balanced, hworkers, ?_, hid, ?_, ?_, ?_⟩
  · rw [hcalls, List.getElem?_concat_length]
  · intro k d _ hd
    rw [hcalls, List.getElem?_append_left (List.getElem?_eq_some_iff.mp hd).1]
    exact hd
  · intro k d hd hk
    obtain ⟨c', hc', -⟩ := h.linked k _ d hd hk
    simp at hc'
  · intro workerId
    have hnot : callsWorker workerId caller = false := by
      unfold callsWorker
      rw [hstage]
      exact Bool.and_false _
    unfold Traffic.underWay
    rw [hcalls, List.countP_append, List.countP_singleton, hnot, if_neg Bool.false_ne_true]
    rfl

theorem callStep {e : ℕ → TrafficEvent} (h : s.Inv workers limits)
    (hat : s.callers[i]? = some caller) (hplace : ∀ j, (e j).place = some j)
    (hstep : s.callStep i caller e = some s') : s'.Inv workers limits := by
  unfold SyncManager.callStep at hstep
  split at hstep
  · next j hstage =>
    obtain ⟨t, ht, rfl⟩ := Option.map_eq_some_iff.mp hstep
    have hm := Traffic.step_moves ht
    obtain ⟨c, c', hc⟩ := hm.changes (hplace j)
    obtain ⟨c₀, hc₀, hid, hlive⟩ := h.linked i j caller hat hstage
    obtain rfl := Option.some.inj (hc₀.symm.trans hc.before)
    have hworkers : t.registries.map WorkerRegistry.workers =
        s.traffic.registries.map WorkerRegistry.workers := by
      rcases hm.workers with hsame | ⟨_, _, he, -⟩
      · exact hsame
      · have hp := hplace j
        rw [he] at hp
        cases hp
    refine h.follow ⟨hat, by rw [hstage]; rfl, hm.balanced h.balanced, hworkers, hc.after,
      hc.workerId.trans hid, ?_, ?_, ?_⟩
    · intro k d hne hd
      rw [hc.other hne]
      exact hd
    · intro k d hd hk
      exact h.once k i j d caller hd hat hk hstage
    · intro workerId
      have hadd := Traffic.countP_set_add
        (fun c : Call => decide (c.workerId = workerId) && !c.phase.isEnded) hc.before c'
      have hold : callsWorker workerId caller =
          (decide (c₀.workerId = workerId) && !c₀.phase.isEnded) := by
        unfold callsWorker
        rw [hstage, hid, hlive]
        rfl
      unfold Traffic.underWay
      rw [hc.calls, hold]
      exact hadd
  · cases hstep
  · cases hstep
  · cases hstep

theorem moves {e : SyncEvent} (h : s.Inv workers limits) (hm : s.Moves host e s') :
    s'.Inv workers limits := by
  cases hm with
  | tick hstep =>
    cases Traffic.step_moves hstep
    exact ⟨h.fixed, ⟨h.balanced.known, h.balanced.balance⟩, h.workers, h.linked, h.once, h.count,
      h.slots⟩
  | refused => exact h
  | queued => exact h.append _ _ rfl (by simp [SyncStage.holds])
  | @entered workerId _ _ _ hfree henter =>
    have hadmitted := h.append ⟨workerId, .admitted, false⟩ s.syncLimit.take rfl
      (FifoSemaphore.free_take hfree)
    exact hadmitted.enter (by simp) rfl henter
  | @admitted i ticket caller _ hat hstage hgrant henter =>
    have hresume := FifoSemaphore.free_resume hgrant
    have hput := h.put hat { caller with stage := .admitted } (s.syncLimit.resume ticket) rfl
      (by simp [hstage]) (by simp [hstage, SyncStage.holds, hresume])
    exact hput.enter (setCaller_self hat) rfl henter
  | called hat hplace hcall => exact h.callStep hat hplace hcall
  | told hat => exact h.put hat _ _ rfl (fun _ => Iff.rfl) (by rw [FifoSemaphore.free_cancelFuture])
  | @toldCall i caller _ hat hcall =>
    have hput := h.put hat { caller with cancelRequested := true } s.syncLimit rfl
      (fun _ => Iff.rfl) rfl
    exact hput.callStep (setCaller_self hat) (fun _ => rfl) hcall
  | thrown hat hstage =>
    exact h.put hat _ _ rfl (by simp [hstage]) (by simp [hstage, SyncStage.holds])

theorem of_reachable {breaker : CircuitBreakerConfig} {ok : SyncManager → SyncEvent → Prop}
    (h : (machine host workers breaker limits).Reachable ok s) : s.Inv workers limits :=
  h.invariant inv_start fun _ _ _ _ hi hs => hi.moves (step_moves hs)

end Inv

theorem unfinished_set {callers : List SyncCaller} (hat : callers[i]? = some caller)
    (caller' : SyncCaller) (hid : caller'.workerId = caller.workerId)
    (hlive : caller'.stage.isEnded = false → caller.stage.isEnded = false) (workerId : String) :
    (callers.set i caller').countP (fun c => decide (c.workerId = workerId) && !c.stage.isEnded) ≤
      callers.countP fun c => decide (c.workerId = workerId) && !c.stage.isEnded := by
  have hadd := Traffic.countP_set_add
    (fun c : SyncCaller => decide (c.workerId = workerId) && !c.stage.isEnded) hat caller'
  have hle : (if decide (caller'.workerId = workerId) && !caller'.stage.isEnded then 1 else 0) ≤
      if decide (caller.workerId = workerId) && !caller.stage.isEnded then 1 else 0 := by
    rw [hid]
    cases hc' : caller'.stage.isEnded with
    | true => simp
    | false => rw [hlive hc']
  omega

theorem follow_unfinished (hat : s.callers[i]? = some caller)
    (hlive : caller.stage.isEnded = false) (workerId : String) :
    (follow { s with traffic := t } i caller j).unfinished workerId ≤ s.unfinished workerId := by
  have hset : ∀ stage : SyncStage, _ := fun stage =>
    unfinished_set hat { caller with stage := stage } rfl (fun _ => hlive) workerId
  unfold follow
  split
  · exact hset _
  · exact hset _

theorem enter_unfinished (hat : s.callers[i]? = some caller) (hlive : caller.stage.isEnded = false)
    (h : s.enter i caller = some s') (workerId : String) :
    s'.unfinished workerId ≤ s.unfinished workerId := by
  obtain ⟨t, -, rfl⟩ := Option.map_eq_some_iff.mp h
  exact follow_unfinished hat hlive workerId

theorem callStep_unfinished {e : ℕ → TrafficEvent} (hat : s.callers[i]? = some caller)
    (h : s.callStep i caller e = some s') (workerId : String) :
    s'.unfinished workerId ≤ s.unfinished workerId := by
  unfold callStep at h
  split at h
  · next hstage =>
    obtain ⟨t, -, rfl⟩ := Option.map_eq_some_iff.mp h
    exact follow_unfinished hat (by rw [hstage]; rfl) workerId
  · cases h
  · cases h
  · cases h

theorem append_unfinished (s : SyncManager) (workerId : String) (semaphore : FifoSemaphore)
    {stage : SyncStage} (hstage : stage.isEnded = false) (w : String) :
    SyncManager.unfinished { s with
      syncLimit := semaphore, callers := s.callers ++ [⟨workerId, stage, false⟩] } w =
      s.unfinished w + if workerId = w then 1 else 0 := by
  unfold unfinished
  simp [List.countP_append, List.countP_singleton, hstage]

theorem Moves.unfinished {e : SyncEvent} (h : s.Moves host e s') (w : String) :
    s'.unfinished w ≤ s.unfinished w ∨ ∃ prompt, e = .call w prompt ∧
      s.accepts host w prompt = true ∧ s'.unfinished w ≤ s.unfinished w + 1 := by
  have hcalled : ∀ {workerId : String} {prompt : Text}, s.accepts host workerId prompt = true →
      s'.unfinished w ≤ s.unfinished w + (if workerId = w then 1 else 0) →
        s'.unfinished w ≤ s.unfinished w ∨ ∃ prompt', SyncEvent.call workerId prompt = .call w prompt' ∧
          s.accepts host w prompt' = true ∧ s'.unfinished w ≤ s.unfinished w + 1 := by
    intro workerId prompt haccepts hle
    by_cases he : workerId = w
    · subst he
      rw [if_pos rfl] at hle
      exact Or.inr ⟨prompt, rfl, haccepts, hle⟩
    · rw [if_neg he] at hle
      exact Or.inl hle
  cases h with
  | tick | refused => exact Or.inl le_rfl
  | queued haccepts => exact hcalled haccepts (append_unfinished s _ _ rfl w).le
  | @entered workerId _ _ haccepts _ henter =>
    have hadmitted : SyncStage.admitted.isEnded = false := rfl
    apply hcalled haccepts
    rw [← append_unfinished s workerId s.syncLimit.take hadmitted w]
    exact enter_unfinished (by simp) hadmitted henter w
  | @admitted i ticket caller _ hat hstage _ henter =>
    have hput := unfinished_set hat { caller with stage := .admitted } rfl
      (fun _ => by rw [hstage]; rfl) w
    have henter' := enter_unfinished (by exact setCaller_self hat) rfl henter w
    exact Or.inl (henter'.trans hput)
  | called hat _ hcall => exact Or.inl (callStep_unfinished hat hcall w)
  | @told i ticket caller hat =>
    exact Or.inl (unfinished_set hat { caller with cancelRequested := true } rfl id w)
  | @toldCall i caller _ hat hcall =>
    have hput := unfinished_set hat { caller with cancelRequested := true } rfl id w
    exact Or.inl ((callStep_unfinished (setCaller_self hat) hcall w).trans hput)
  | @thrown i ticket caller hat =>
    exact Or.inl (unfinished_set hat { caller with stage := .ended none } rfl nofun w)

/-- What keeps a worker to the limit `k`: its callers, its slots, or the slots of `_sync_limit`. -/
def Within (workers : List WorkerConfig) (limits : LimitsConfig) (k : ℕ) (s : SyncManager) : Prop :=
  ∀ workerId, s.unfinished workerId ≤ k ∨ WorkerRegistry.capacity workers workerId ≤ k ∨
    limits.syncActiveTasks ≤ k

theorem Within.step {e : SyncEvent} {k : ℕ} (h : s.Within workers limits k)
    (hi : s.Inv workers limits) (hk : limits.perWorkerActiveTasks = some k)
    (hok : paced host s e) (hstep : s.step host e = some s') : s'.Within workers limits k := by
  intro w
  rcases h w with hle | hother
  · rcases (step_moves hstep).unfinished w with hkeep | ⟨prompt, rfl, haccepts, hadd⟩
    · exact Or.inl (hkeep.trans hle)
    · unfold paced crowds at hok
      simp only [haccepts, hi.fixed, hk, hi.slots_eq, Option.any_some, Bool.true_and,
        Bool.and_eq_false_iff, decide_eq_false_iff_not, not_le, not_lt] at hok
      rcases hok with hfew | hslots | hsync
      · left
        omega
      · exact Or.inr (Or.inl hslots)
      · exact Or.inr (Or.inr hsync)
  · exact Or.inr hother

theorem inFlight_le (hi : s.Inv workers limits) (workerId : String) :
    s.traffic.inFlight workerId ≤ s.callers.countP (callsWorker workerId) ∧
      s.traffic.inFlight workerId ≤ WorkerRegistry.capacity workers workerId := by
  constructor
  · rw [← hi.count workerId]
    apply List.countP_mono_left
    intro c _ hc
    cases hph : c.phase <;> simp [hph, CallPhase.isPosting, CallPhase.isEnded] at hc ⊢
    exact hc
  · -- Every call is one of the only registry.
    have hlen : s.traffic.registries.length = 1 := by
      have hmap := congrArg List.length hi.workers
      simpa using hmap
    have hone : s.traffic.inFlight workerId = s.traffic.posting 0 workerId := by
      apply List.countP_congr
      intro c hc
      have hknown := hi.balanced.known c hc
      have hreg : c.registry = 0 := by omega
      simp [hreg]
    rw [hone, ← hi.slots_eq]
    exact hi.balanced.posting_le 0 workerId

/-- A worker has no more POSTs than its limit, if each call that passes the check
comes while fewer callers of its worker than that are not over, or where the slots
of the worker or of `_sync_limit` are no more than the limit. -/
theorem inFlight_le_of_paced {breaker : CircuitBreakerConfig} {k : ℕ}
    (h : (machine host workers breaker limits).Reachable (paced host) s)
    (hk : limits.perWorkerActiveTasks = some k) (workerId : String) :
    s.traffic.inFlight workerId ≤ k := by
  have hwithin : s.Within workers limits k := by
    refine h.invariant' (fun _ => Or.inl (Nat.zero_le _)) ?_
    intro s e s' hs hok hw hstep
    exact hw.step (.of_reachable hs) hk hok hstep
  have hi : s.Inv workers limits := .of_reachable h
  obtain ⟨hcallers, hslots⟩ := inFlight_le hi workerId
  rcases hwithin workerId with hfew | hcap | hsync
  · -- A caller in its call is not over.
    refine hcallers.trans (le_trans ?_ hfew)
    apply List.countP_mono_left
    intro c _ hc
    unfold callsWorker at hc
    cases hst : c.stage <;> simp [hst, SyncStage.isCalling, SyncStage.isEnded] at hc ⊢
    exact hc
  · exact hslots.trans hcap
  · have hheld : s.callers.countP (callsWorker workerId) ≤
        s.callers.countP fun c => c.stage.holds := by
      apply List.countP_mono_left
      intro c _ hc
      unfold callsWorker at hc
      cases hst : c.stage <;> simp [hst, SyncStage.isCalling, SyncStage.holds] at hc ⊢
    have hfree := hi.slots
    omega

end SyncManager

namespace Sample

def syncWorker (workerId : String) (maxConcurrentTasks : ℕ) (hpos : 1 ≤ maxConcurrentTasks) :
    WorkerConfig :=
  { worker maxConcurrentTasks hpos with workerId := workerId, allowedModes := [.sync] }

theorem onlyOne : ∀ k ∈ some 1, 1 ≤ k := by simp

theorem twoSlots : 1 ≤ 2 := by decide

def limitSync (limits : LimitsConfig) (syncActiveTasks : ℕ) (hpos : 1 ≤ syncActiveTasks) :
    LimitsConfig :=
  { limits with syncActiveTasks := syncActiveTasks, syncActiveTasks_pos := hpos }

def syncLimits : LimitsConfig := limitSync (limits (some 1) onlyOne) 2 twoSlots

def syncMachine : Runs.Machine SyncManager SyncEvent :=
  SyncManager.machine host
    [syncWorker "u" 1 oneSlot, syncWorker "v" 1 oneSlot, syncWorker "w" 2 twoSlots] breaker
    syncLimits

end Sample

namespace SyncManager

/-- A call that waits for `_sync_limit`, is admitted, and has the next one refused. -/
theorem inFlight_le_of_paced_one : ∃ s : SyncManager, s.traffic.calls.length = 3 ∧
    s.callers.length = 3 ∧ s.traffic.inFlight "w" ≤ 1 := by
  obtain ⟨s, hs, hp⟩ := Runs.Machine.exists_reachable_of_run Sample.syncMachine (paced Sample.host)
    [.call "u" Sample.prompt, .call "v" Sample.prompt, .call "w" Sample.prompt,
      .respond 0 (.ok (.obj [])), .goOn 2, .call "w" Sample.prompt]
    (fun s => decide (s.traffic.calls.length = 3) && decide (s.callers.length = 3))
    (by decide +kernel)
  rw [Bool.and_eq_true, decide_eq_true_iff, decide_eq_true_iff] at hp
  exact ⟨s, hp.1, hp.2, inFlight_le_of_paced hs rfl "w"⟩

/-- Two calls of one worker pass the check while other workers have both slots of
`_sync_limit`, and post together when these are done. -/
theorem inFlight_exceeds_limit : ∃ s : SyncManager,
    Sample.syncMachine.Reachable Runs.anyStep s ∧
    Sample.syncLimits.perWorkerActiveTasks = some 1 ∧ s.traffic.inFlight "w" = 2 := by
  obtain ⟨s, hs, hp⟩ := Runs.Machine.exists_reachable_of_run Sample.syncMachine Runs.anyStep
    [.call "u" Sample.prompt, .call "v" Sample.prompt, .call "w" Sample.prompt,
      .call "w" Sample.prompt, .respond 0 (.ok (.obj [])), .respond 1 (.ok (.obj [])), .goOn 2,
      .goOn 3]
    (fun s => decide (s.traffic.inFlight "w" = 2)) (by decide +kernel)
  exact ⟨s, hs, rfl, of_decide_eq_true hp⟩

end SyncManager

end WorkerBridge
