import WorkerBridge.Bridge
import WorkerBridge.Traffic

namespace WorkerBridge.Traffic

variable {s s' : Traffic} {e : TrafficEvent}

/-- Each registry counts the calls inside its sections. -/
def Occupied (s : Traffic) : Prop :=
  ∀ r reg, s.registries[r]? = some reg → ∀ workerId, reg.active workerId = s.posting r workerId

theorem Occupied.exchange {r : ℕ} {workerId : String} {reg reg' : WorkerRegistry}
    (ho : s.Occupied) (hreg : s.registries[r]? = some reg)
    (hregs : s'.registries = s.registries.set r reg')
    (hother : ∀ r' w, r' ≠ r ∨ w ≠ workerId → s'.posting r' w = s.posting r' w)
    (hactive : ∀ w, w ≠ workerId → reg'.active w = reg.active w)
    (hself : reg'.active workerId = s'.posting r workerId) : s'.Occupied := by
  have hlt : r < s.registries.length := (List.getElem?_eq_some_iff.mp hreg).1
  intro r' reg₁ hreg₁ w
  rw [hregs] at hreg₁
  by_cases hr : r = r'
  · subst hr
    rw [List.getElem?_set_self hlt, Option.some.injEq] at hreg₁
    subst hreg₁
    by_cases hw : w = workerId
    · rw [hw, hself]
    · rw [hactive w hw, hother r w (Or.inr hw), ho r reg hreg]
  · rw [List.getElem?_set_ne hr] at hreg₁
    rw [hother r' w (Or.inl (Ne.symm hr)), ho r' reg₁ hreg₁]

theorem Occupied.goOn {j : ℕ} {call : Call} {reg reg' : WorkerRegistry} {phase : CallPhase}
    {requested : Bool} (ho : s.Occupied) (hcall : s.calls[j]? = some call)
    (hreg : s.registries[call.registry]? = some reg)
    (hcalls : s'.calls = s.calls.set j { call with phase := phase, cancelRequested := requested })
    (hregs : s'.registries = s.registries.set call.registry reg')
    (hactive : ∀ w, w ≠ call.workerId → reg'.active w = reg.active w)
    (hself : reg'.active call.workerId + (if call.phase.isPosting then 1 else 0) =
      reg.active call.workerId + if phase.isPosting then 1 else 0) : s'.Occupied := by
  refine ho.exchange hreg hregs (posting_other_of_set hcall hcalls) hactive ?_
  have hposting := posting_of_set hcall hcalls
  have hold := ho _ reg hreg call.workerId
  omega

theorem Occupied.begin {r : ℕ} {workerId : String} {reg reg' : WorkerRegistry} {phase : CallPhase}
    (ho : s.Occupied) (hreg : s.registries[r]? = some reg)
    (hcalls : s'.calls = s.calls ++ [⟨r, workerId, s.now, phase, false⟩])
    (hregs : s'.registries = s.registries.set r reg')
    (hactive : ∀ w, w ≠ workerId → reg'.active w = reg.active w)
    (hself : reg'.active workerId = reg.active workerId + if phase.isPosting then 1 else 0) :
    s'.Occupied := by
  refine ho.exchange hreg hregs (posting_other_of_append hcalls) hactive ?_
  rw [hself, ho r reg hreg, posting_of_append hcalls]

theorem Occupied.pos {j : ℕ} {call : Call} {reg : WorkerRegistry} (ho : s.Occupied)
    (hcall : s.calls[j]? = some call) (hreg : s.registries[call.registry]? = some reg)
    (hph : call.phase = .posting) : 1 ≤ reg.active call.workerId := by
  rw [ho _ reg hreg]
  refine List.countP_pos_iff.mpr ⟨call, List.mem_of_getElem? hcall, ?_⟩
  simp [hph, CallPhase.isPosting]

theorem Moves.occupied (hb : s.Balanced) (ho : s.Occupied) (h : s.Moves e s') : s'.Occupied := by
  cases h with
  | tick => exact ho
  | refused hreg =>
    exact ho.begin hreg rfl (set_eq_self hreg).symm (fun _ _ => rfl) rfl
  | queued hreg => exact ho.begin hreg rfl rfl (fun _ _ => rfl) rfl
  | entered hreg =>
    exact ho.begin hreg rfl rfl (fun w hw => Function.update_of_ne hw _ _)
      (Function.update_self ..)
  | resumed hcall hreg hph =>
    refine ho.goOn hcall hreg rfl rfl (fun w hw => Function.update_of_ne hw _ _) ?_
    simp only [hph, CallPhase.isPosting, WorkerRegistry.enter, Function.update_self,
      Bool.false_eq_true, if_false, if_true, Nat.add_zero]
  | @answered j response call reg hcall hreg hph =>
    refine ho.goOn hcall hreg rfl (respond_registries s j call reg response)
      (fun w hw => Function.update_of_ne hw _ _) ?_
    have hpos := ho.pos hcall hreg hph
    simp only [hph, CallPhase.isPosting, WorkerRegistry.answered, Function.update_self,
      Bool.false_eq_true, if_false, if_true]
    omega
  | @cancel j call reg hcall hreg =>
    obtain ⟨semaphore, -, hregs⟩ := cancel_registries (j := j) hreg
    exact ho.goOn hcall hreg (cancel_frame s j call reg).1 hregs (fun _ _ => rfl) rfl
  | abandoned hcall hreg hph =>
    refine ho.goOn hcall hreg rfl rfl (fun _ _ => rfl) ?_
    rw [hph]
    rfl
  | aborted hcall hreg hph =>
    refine ho.goOn hcall hreg rfl rfl (fun w hw => Function.update_of_ne hw _ _) ?_
    have hpos := ho.pos hcall hreg hph
    simp only [hph, CallPhase.isPosting, WorkerRegistry.leave, Function.update_self,
      Bool.false_eq_true, if_false, if_true]
    omega
  | @reload workers breaker =>
    intro r reg hreg w
    rcases lt_or_ge r s.registries.length with hr | hr
    · rw [List.getElem?_append_left hr] at hreg
      exact ho r reg hreg w
    · rw [List.getElem?_append_right hr] at hreg
      have hnew := List.mem_singleton.mp (List.mem_of_getElem? hreg)
      subst hnew
      -- No call was made on a registry that is new.
      refine (List.countP_eq_zero.mpr fun call hc => ?_).symm
      have hne : call.registry ≠ r := by
        have := hb.known call hc
        omega
      simp [hne]

/-- The step takes a call to the worker out of its section. -/
def leaves (s : Traffic) (workerId : String) (e : TrafficEvent) : Bool :=
  e.ends && (e.place.bind (s.calls[·]?)).any fun c =>
    decide (c.workerId = workerId) && c.phase.isPosting

/-- The calls to a worker that leave its section in the course of a run. -/
def left (s : Traffic) (workerId : String) : List TrafficEvent → ℕ
  | [] => 0
  | e :: events => (if s.leaves workerId e then 1 else 0) +
      (s.step e).elim 0 fun s' => s'.left workerId events

theorem workerCallCount_receive (reg : WorkerRegistry) (now : ℚ) (metrics : MetricsRegistry)
    (workerId : String) (response : Except PyExc Json) :
    (reg.receive now metrics workerId response).1.2.workerCallCount = metrics.workerCallCount := by
  have hfailure (reg : WorkerRegistry) :
      (reg.recordFailure now metrics workerId).2.workerCallCount = metrics.workerCallCount := by
    unfold WorkerRegistry.recordFailure
    simp only
    split
    · split <;> rfl
    · rfl
  unfold WorkerRegistry.receive
  cases response with
  | error exc => exact hfailure reg
  | ok data =>
    cases hdata : normalizeResponse data with
    | ok result => simp only [hdata]
    | error exc =>
      simp only [hdata]
      exact hfailure _

theorem Moves.workerCallCount (h : s.Moves e s') (workerId : String) :
    s'.metrics.workerCallCount workerId =
      s.metrics.workerCallCount workerId + if s.leaves workerId e then 1 else 0 := by
  have hcall {j : ℕ} {call : Call} (hcall : s.calls[j]? = some call) (hph : call.phase = .posting)
      (hends : e.ends = true) (hplace : e.place = some j) :
      s.leaves workerId e = decide (call.workerId = workerId) := by
    unfold leaves
    rw [hends, hplace, Option.bind_some, hcall, Option.any_some, hph]
    simp [CallPhase.isPosting]
  cases h with
  | tick | refused | queued | entered | resumed | reload => rfl
  | @answered j response call reg hc hreg hph =>
    rw [hcall hc hph rfl rfl]
    show ((reg.receive s.now s.metrics call.workerId response).1.2.observeWorkerCall
      call.workerId).workerCallCount workerId = _
    simp only [MetricsRegistry.workerCallCount_observe, workerCallCount_receive, decide_eq_true_eq]
  | @cancel j call reg =>
    have hmetrics : (s.cancel j call reg).metrics = s.metrics := by
      unfold Traffic.cancel
      cases call.phase <;> rfl
    rw [hmetrics]
    rfl
  | @abandoned j call reg ticket hc hreg hph =>
    have hleaves : s.leaves workerId (.throwCancelled j) = false := by
      unfold leaves
      rw [TrafficEvent.place, Option.bind_some, hc, Option.any_some, hph]
      simp [CallPhase.isPosting]
    rw [hleaves]
    rfl
  | @aborted j call reg hc hreg hph =>
    rw [hcall hc hph rfl rfl]
    show (s.metrics.observeWorkerCall call.workerId).workerCallCount workerId = _
    simp only [MetricsRegistry.workerCallCount_observe, decide_eq_true_eq]

variable {workers : List WorkerConfig} {breaker : CircuitBreakerConfig}

theorem occupied_start : (machine workers breaker).start.Occupied := by
  intro r reg hreg w
  have hnew := List.mem_singleton.mp (List.mem_of_getElem? hreg)
  subst hnew
  rfl

/-- Each count of active calls is that of the calls inside, within the slots of the worker. -/
structure Accounted (s : Traffic) : Prop where
  active : ∀ (r : ℕ) (reg : WorkerRegistry), s.registries[r]? = some reg → ∀ workerId,
    reg.active workerId = s.posting r workerId
  bound : ∀ (r : ℕ) (reg : WorkerRegistry), s.registries[r]? = some reg → ∀ workerId,
    reg.active workerId ≤ WorkerRegistry.capacity reg.workers workerId

theorem accounted_of_reachable {ok : Traffic → TrafficEvent → Prop}
    (h : (machine workers breaker).Reachable ok s) : s.Accounted := by
  have hb := balanced_of_reachable h
  have ho : s.Occupied := by
    refine (h.invariant (I := fun s => s.Balanced ∧ s.Occupied) ⟨balanced_start, occupied_start⟩
      fun s e s' _ hi hs => ?_).2
    have hmoves := step_moves hs
    exact ⟨hmoves.balanced hi.1, hmoves.occupied hi.1 hi.2⟩
  refine ⟨ho, fun r reg hreg w => ?_⟩
  have hle := hb.posting_le r w
  unfold slots at hle
  rw [hreg, Option.elim_some] at hle
  exact (ho r reg hreg w).trans_le hle

theorem workerCallCount_run {events : List TrafficEvent}
    (h : (machine workers breaker).run Runs.anyStep s events = some s') (workerId : String) :
    s'.metrics.workerCallCount workerId =
      s.metrics.workerCallCount workerId + s.left workerId events := by
  induction events generalizing s with
  | nil =>
    cases h
    rfl
  | cons e events ih =>
    rw [Runs.Machine.run, if_pos (show Runs.anyStep s e from trivial)] at h
    obtain ⟨t, ht, hrun⟩ := Option.bind_eq_some_iff.mp h
    have hstep : s.step e = some t := ht
    rw [ih hrun, (step_moves hstep).workerCallCount, left, hstep, Option.elim_some]
    omega

/-- After any run, each registry counts the calls inside its sections, within their slots, and
the calls that have left them have all been observed. -/
theorem slots_accounted {events : List TrafficEvent}
    (h : (machine workers breaker).run Runs.anyStep (machine workers breaker).start events =
      some s) : s.Accounted ∧ ∀ workerId, s.metrics.workerCallCount workerId =
        (machine workers breaker).start.left workerId events := by
  refine ⟨accounted_of_reachable (Runs.Machine.reachable_of_run h), fun workerId => ?_⟩
  rw [workerCallCount_run h]
  exact Nat.zero_add _

/-- One call is cancelled in its POST, and the one that waits for its slot right after it was
granted it. -/
def Sample.givenUp : List TrafficEvent :=
  [.call 0 "w", .call 0 "w", .cancel 0, .throwCancelled 0, .cancel 1, .throwCancelled 1]

theorem givenUp_accounted : ∃ s, (machine Sample.workers Sample.breaker).run Runs.anyStep
    (machine Sample.workers Sample.breaker).start Sample.givenUp = some s ∧
    s.calls.map (fun c => c.phase.isEnded) = [true, true] ∧ s.posts.length = 1 ∧
    s.registries.map (fun reg => reg.active "w") = [0] ∧ s.metrics.workerCallCount "w" = 1 ∧
    s.Accounted ∧ ∀ workerId, s.metrics.workerCallCount workerId =
      (machine Sample.workers Sample.breaker).start.left workerId Sample.givenUp := by
  have hrun : ((machine Sample.workers Sample.breaker).run Runs.anyStep
      (machine Sample.workers Sample.breaker).start Sample.givenUp).map (fun s =>
        decide (s.calls.map (fun c => c.phase.isEnded) = [true, true] ∧ s.posts.length = 1 ∧
          s.registries.map (fun reg => reg.active "w") = [0] ∧
          s.metrics.workerCallCount "w" = 1)) = some true := by
    decide +kernel
  obtain ⟨s, hs, hcheck⟩ := Option.map_eq_some_iff.mp hrun
  obtain ⟨hcalls, hposts, hactive, hcount⟩ := of_decide_eq_true hcheck
  exact ⟨s, hs, hcalls, hposts, hactive, hcount, slots_accounted hs⟩

end WorkerBridge.Traffic
