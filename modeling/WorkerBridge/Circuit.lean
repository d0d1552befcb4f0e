import WorkerBridge.Bridge
import WorkerBridge.Traffic

namespace WorkerBridge

namespace CallPhase

def isWaiting : CallPhase → Bool
  | waiting _ => true
  | posting | ended _ => false

end CallPhase

/-- A call that waits for its slot and has not been cancelled. -/
def Call.waits (call : Call) : Bool := call.phase.isWaiting && !call.cancelRequested

namespace WorkerRegistry

/-- Whether a response counts as a failure that opens the circuit.  A body that
cannot be read is one after a success. -/
def opens (reg : WorkerRegistry) (workerId : String) : Except PyExc Json → Bool
  | .error _ => decide (reg.breaker.failureThreshold ≤ (reg.circuits workerId).failures + 1)
  | .ok data =>
    match normalizeResponse data with
    | .ok _ => false
    | .error _ => decide (reg.breaker.failureThreshold ≤ 1)

theorem received_downUntil {reg : WorkerRegistry} {workerId : String}
    {response : Except PyExc Json} (now : ℚ) (h : reg.opens workerId response = false) :
    (reg.received now workerId response).downUntil = (reg.circuits workerId).downUntil ∨
      (reg.received now workerId response).downUntil = 0 := by
  unfold opens at h
  unfold received
  cases response with
  | error exc =>
    simp only [decide_eq_false_iff_not] at h
    exact Or.inl (if_neg h)
  | ok data =>
    cases hdata : normalizeResponse data with
    | ok result =>
      simp only [hdata]
      exact Or.inr rfl
    | error exc =>
      simp only [hdata, decide_eq_false_iff_not] at h ⊢
      exact Or.inr (if_neg h)

end WorkerRegistry

namespace Traffic

variable {s s' : Traffic} {e : TrafficEvent}

def circuit (s : Traffic) (r : ℕ) (workerId : String) : CircuitState :=
  (s.registries[r]?).elim .new fun reg => reg.circuits workerId

/-- A failure that opens a circuit comes while nobody waits for a slot of that
worker. -/
def unwaited (s : Traffic) : TrafficEvent → Prop
  | .respond j response => ∀ p ∈ s.lookup j, p.2.opens p.1.workerId response = true →
      ∀ other ∈ s.calls, other.registry = p.1.registry → other.workerId = p.1.workerId →
        other.waits = false
  | _ => True

instance (s : Traffic) (e : TrafficEvent) : Decidable (s.unwaited e) :=
  match e with
  | .respond j response => inferInstanceAs (Decidable (∀ p ∈ s.lookup j,
      p.2.opens p.1.workerId response = true → ∀ other ∈ s.calls, other.registry = p.1.registry →
        other.workerId = p.1.workerId → other.waits = false))
  | .tick _ | .call _ _ | .resume _ | .cancel _ | .throwCancelled _ | .reload _ _ => isTrue trivial

/-- Those who wait wait for a worker whose circuit is closed. -/
structure Quiet (s : Traffic) : Prop where
  clock : 0 ≤ s.now
  closed : ∀ call ∈ s.calls, call.waits = true →
    (s.circuit call.registry call.workerId).downUntil ≤ s.now
  posts : ∀ post ∈ s.posts, post.downUntil ≤ post.time

theorem circuit_eq {r : ℕ} {reg : WorkerRegistry} (hreg : s.registries[r]? = some reg) :
    s.circuit r = reg.circuits := by
  unfold circuit
  rw [hreg]
  rfl

theorem circuit_of_set {r : ℕ} {reg reg' : WorkerRegistry} (hreg : s.registries[r]? = some reg)
    (hregs : s'.registries = s.registries.set r reg') (r' : ℕ) (workerId : String) :
    s'.circuit r' workerId =
      if r' = r then reg'.circuits workerId else s.circuit r' workerId := by
  unfold circuit
  rw [hregs]
  split
  · next he =>
    subst he
    rw [List.getElem?_set_self (List.getElem?_eq_some_iff.mp hreg).1]
    rfl
  · next hne => rw [List.getElem?_set_ne (Ne.symm hne)]

theorem circuit_of_same {r : ℕ} {reg reg' : WorkerRegistry} (hreg : s.registries[r]? = some reg)
    (hregs : s'.registries = s.registries.set r reg') (hcircuits : reg'.circuits = reg.circuits) :
    s'.circuit = s.circuit := by
  funext r' workerId
  rw [circuit_of_set hreg hregs, hcircuits]
  split
  · next he =>
    rw [he, circuit_eq hreg]
  · rfl

theorem Quiet.frame (hq : s.Quiet) (hcircuit : s'.circuit = s.circuit) (hnow : s'.now = s.now)
    (hcalls : ∀ call ∈ s'.calls, call.waits = true → call ∈ s.calls ∨
      (s.circuit call.registry call.workerId).downUntil ≤ s.now)
    (hposts : ∀ post ∈ s'.posts, post ∈ s.posts ∨ post.downUntil ≤ post.time) : s'.Quiet := by
  refine ⟨hnow.symm ▸ hq.clock, ?_, ?_⟩
  · intro call hc hw
    rw [hcircuit, hnow]
    rcases hcalls call hc hw with hold | hclosed
    · exact hq.closed call hold hw
    · exact hclosed
  · intro post hp
    exact (hposts post hp).elim (hq.posts post) id

theorem mem_of_set {j : ℕ} {call c : Call} (hc : c ∈ s.calls.set j call) (hw : c.waits = true)
    (hnot : call.waits = false) : c ∈ s.calls := by
  rcases List.mem_or_eq_of_mem_set hc with hc | rfl
  · exact hc
  · rw [hw] at hnot
    cases hnot

theorem mem_of_append {call c : Call} (hc : c ∈ s.calls ++ [call]) (hw : c.waits = true)
    (hnot : call.waits = false) : c ∈ s.calls := by
  rcases List.mem_append.mp hc with hc | hc
  · exact hc
  · rw [List.mem_singleton.mp hc, hnot] at hw
    cases hw

theorem Quiet.answered {j : ℕ} {response : Except PyExc Json} {call c : Call} {reg : WorkerRegistry}
    (hq : s.Quiet) (ha : s.unwaited (.respond j response)) (hcall : s.calls[j]? = some call)
    (hreg : s.registries[call.registry]? = some reg) (hc : c ∈ s.calls) (hw : c.waits = true)
    (hr : c.registry = call.registry) :
    ((reg.answered s.now call.workerId response).circuits c.workerId).downUntil ≤ s.now := by
  -- Somebody waits for the worker that answered, so its circuit is still closed.
  have hclosed := hq.closed c hc hw
  rw [hr, circuit_eq hreg] at hclosed
  unfold WorkerRegistry.answered
  by_cases hid : c.workerId = call.workerId
  · simp only [hid, Function.update_self]
    rw [hid] at hclosed
    cases hopens : reg.opens call.workerId response with
    | true =>
      -- The circuit opens, so `c` cannot be waiting.
      have hnot := ha _ (lookup_eq_some.mpr ⟨hcall, hreg⟩) hopens c hc hr hid
      rw [hw] at hnot
      cases hnot
    | false =>
      rcases WorkerRegistry.received_downUntil s.now hopens with hd | hd
      · rw [hd]
        exact hclosed
      · rw [hd]
        exact hq.clock
  · simp only [Function.update_of_ne hid]
    exact hclosed

theorem Moves.quiet (hb : s.Balanced) (hq : s.Quiet) (ha : s.unwaited e) (h : s.Moves e s') :
    s'.Quiet := by
  have hpost : ∀ post ∈ s.posts, post ∈ s.posts ∨ post.downUntil ≤ post.time :=
    fun post hp => Or.inl hp
  cases h with
  | @tick seconds hs =>
    refine ⟨add_nonneg hq.clock hs, ?_, hq.posts⟩
    intro call hc hw
    exact (hq.closed call hc hw).trans (le_add_of_nonneg_right hs)
  | refused hreg =>
    exact hq.frame rfl rfl (fun c hc hw => Or.inl (mem_of_append hc hw rfl)) hpost
  | @queued r workerId reg hreg havail =>
    refine hq.frame (circuit_of_same hreg rfl rfl) rfl ?_ hpost
    intro call hc _
    rcases List.mem_append.mp hc with hc | hc
    · exact Or.inl hc
    · rw [List.mem_singleton.mp hc, circuit_eq hreg]
      exact Or.inr havail
  | @entered r workerId reg hreg havail =>
    refine hq.frame (circuit_of_same hreg rfl rfl) rfl
      (fun c hc hw => Or.inl (mem_of_append hc hw rfl)) ?_
    intro post hp
    rcases List.mem_cons.mp hp with rfl | hp
    · exact Or.inr havail
    · exact Or.inl hp
  | @resumed j call reg ticket hcall hreg hph hreq =>
    refine hq.frame (circuit_of_same hreg rfl rfl) rfl
      (fun c hc hw => Or.inl (mem_of_set hc hw rfl)) ?_
    intro post hp
    rcases List.mem_cons.mp hp with rfl | hp
    · -- It has waited, and nothing has opened the circuit since it was looked at.
      have hwaits : call.waits = true := by
        unfold Call.waits
        rw [hph, hreq]
        rfl
      have hclosed := hq.closed call (List.mem_of_getElem? hcall) hwaits
      rw [circuit_eq hreg] at hclosed
      exact Or.inr hclosed
    · exact Or.inl hp
  | @answered j response call reg hcall hreg =>
    refine ⟨hq.clock, ?_, hq.posts⟩
    intro c hc hw
    have hold : c ∈ s.calls := mem_of_set hc hw rfl
    show (Traffic.circuit _ c.registry c.workerId).downUntil ≤ s.now
    rw [circuit_of_set hreg (respond_registries s j call reg response)]
    split
    · next hr => exact hq.answered ha hcall hreg hold hw hr
    · exact hq.closed c hold hw
  | @cancel j call reg hcall hreg =>
    obtain ⟨semaphore, -, hregs⟩ := cancel_registries (j := j) hreg
    obtain ⟨hcalls, hnow, hposts⟩ := cancel_frame s j call reg
    refine hq.frame (circuit_of_same hreg hregs rfl) hnow ?_ (hposts ▸ hpost)
    intro c hc hw
    rw [hcalls] at hc
    exact Or.inl (mem_of_set hc hw (Bool.and_false _))
  | abandoned hcall hreg =>
    exact hq.frame (circuit_of_same hreg rfl rfl) rfl
      (fun c hc hw => Or.inl (mem_of_set hc hw rfl)) hpost
  | aborted hcall hreg =>
    exact hq.frame (circuit_of_same hreg rfl rfl) rfl
      (fun c hc hw => Or.inl (mem_of_set hc hw rfl)) hpost
  | @reload workers breaker =>
    refine ⟨hq.clock, ?_, hq.posts⟩
    intro call hc hw
    have hclosed := hq.closed call hc hw
    unfold circuit at hclosed ⊢
    rw [List.getElem?_append_left (hb.known call hc)]
    exact hclosed

variable {workers : List WorkerConfig} {breaker : CircuitBreakerConfig}

/-- No POST is started while the circuit of its worker is open, as long as no
failure opens a circuit under a call that waits. -/
theorem posts_closed (h : (machine workers breaker).Reachable unwaited s) :
    ∀ post ∈ s.posts, post.downUntil ≤ post.time := by
  have hquiet : s.Quiet := by
    refine h.invariant' ⟨le_rfl, List.forall_mem_nil _, List.forall_mem_nil _⟩ ?_
    intro s e s' hr ha hq hs
    exact (step_moves hs).quiet (balanced_of_reachable hr) hq ha
  exact hquiet.posts

end Traffic

namespace Sample

/-- One worker with one slot, whose circuit one failure opens. -/
def traffic : Runs.Machine Traffic TrafficEvent := Traffic.machine workers breaker

def failure : Except PyExc Json := .error (.other "ReadError".toList [])

end Sample

namespace Traffic

/-- A call that waits for its slot while the circuit stays closed. -/
theorem posts_closed_waiting : ∃ s : Traffic, s.posts.length = 2 ∧
    ∀ post ∈ s.posts, post.downUntil ≤ post.time := by
  obtain ⟨s, hs, hp⟩ := Runs.Machine.exists_reachable_of_run Sample.traffic unwaited
    [.call 0 "w", .call 0 "w", .respond 0 (.ok (.obj [])), .resume 1]
    (fun s => decide (s.posts.length = 2)) (by decide)
  exact ⟨s, of_decide_eq_true hp, posts_closed hs⟩

/-- The second call has found the circuit closed and posts after the first has
opened it. -/
theorem post_while_open : ∃ s : Traffic, Sample.traffic.Reachable Runs.anyStep s ∧
    s.registries.length = 1 ∧ ∃ post ∈ s.posts, post.time < post.downUntil := by
  obtain ⟨s, hs, hp⟩ := Runs.Machine.exists_reachable_of_run Sample.traffic Runs.anyStep
    [.call 0 "w", .call 0 "w", .respond 0 Sample.failure, .resume 1]
    (fun s => decide (s.registries.length = 1) &&
      s.posts.any fun post => decide (post.time < post.downUntil)) (by decide +kernel)
  rw [Bool.and_eq_true, decide_eq_true_iff, List.any_eq_true] at hp
  obtain ⟨hlen, post, hmem, hopen⟩ := hp
  exact ⟨s, hs, hlen, post, hmem, of_decide_eq_true hopen⟩

end Traffic

end WorkerBridge
