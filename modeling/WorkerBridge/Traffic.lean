import Mathlib.Algebra.Order.Ring.Rat
import WorkerBridge.Registry

namespace WorkerBridge

namespace CallPhase

def isPosting : CallPhase → Bool
  | posting => true
  | waiting _ | ended _ => false

def isEnded : CallPhase → Bool
  | ended _ => true
  | waiting _ | posting => false

end CallPhase

namespace TrafficEvent

def place : TrafficEvent → Option ℕ
  | resume j | respond j _ | cancel j | throwCancelled j => some j
  | tick _ | call .. | reload .. => none

def ends : TrafficEvent → Bool
  | respond .. | throwCancelled _ => true
  | tick _ | call .. | resume _ | cancel _ | reload .. => false

end TrafficEvent

namespace WorkerRegistry

variable {reg : WorkerRegistry} {workerId : String}

theorem assertAvailable_eq_ok {now : ℚ} :
    reg.assertAvailable now workerId = .ok () ↔ (reg.circuits workerId).downUntil ≤ now := by
  unfold assertAvailable
  split
  · next h => simpa using h
  · next h => simpa using h

def failed (breaker : CircuitBreakerConfig) (now : ℚ) (circuit : CircuitState) : CircuitState where
  failures := circuit.failures + 1
  downUntil := if breaker.failureThreshold ≤ circuit.failures + 1 then now + breaker.recoverySeconds
    else circuit.downUntil

theorem recordFailure_eq (reg : WorkerRegistry) (now : ℚ) (metrics : MetricsRegistry)
    (workerId : String) : (reg.recordFailure now metrics workerId).1 =
      { reg with circuits :=
          Function.update reg.circuits workerId (failed reg.breaker now (reg.circuits workerId)) } := by
  unfold recordFailure failed
  simp only
  split <;> rfl

def received (reg : WorkerRegistry) (now : ℚ) (workerId : String) :
    Except PyExc Json → CircuitState
  | .error _ => failed reg.breaker now (reg.circuits workerId)
  | .ok data =>
    match normalizeResponse data with
    | .ok _ => .new
    | .error _ => failed reg.breaker now .new

theorem receive_eq (reg : WorkerRegistry) (now : ℚ) (metrics : MetricsRegistry) (workerId : String)
    (response : Except PyExc Json) : (reg.receive now metrics workerId response).1.1 =
      { reg with circuits :=
          Function.update reg.circuits workerId (reg.received now workerId response) } := by
  unfold receive received
  cases response with
  | error exc => exact recordFailure_eq reg now metrics workerId
  | ok data =>
    cases hdata : normalizeResponse data with
    | ok result => simp only [hdata, recordSuccess]
    | error exc =>
      simp only [hdata, recordFailure_eq, recordSuccess, Function.update_self, Function.update_idem]

/-- The registry after a response, once the call has left the section. -/
def answered (reg : WorkerRegistry) (now : ℚ) (workerId : String)
    (response : Except PyExc Json) : WorkerRegistry :=
  { reg with
    circuits := Function.update reg.circuits workerId (reg.received now workerId response)
    semaphores := Function.update reg.semaphores workerId (reg.semaphores workerId).release
    active := Function.update reg.active workerId (reg.active workerId - 1) }

end WorkerRegistry

namespace Traffic

variable {s s' : Traffic} {e : TrafficEvent}

theorem lookup_eq_some {j : ℕ} {call : Call} {reg : WorkerRegistry} :
    s.lookup j = some (call, reg) ↔
      s.calls[j]? = some call ∧ s.registries[call.registry]? = some reg := by
  unfold lookup
  simp only [Option.bind_eq_some_iff, Option.map_eq_some_iff, Prod.mk.injEq]
  constructor
  · rintro ⟨c, hc, r, hr, rfl, rfl⟩
    exact ⟨hc, hr⟩
  · rintro ⟨hc, hr⟩
    exact ⟨call, hc, reg, hr, rfl, rfl⟩

theorem set_eq_self {α : Type*} {l : List α} {i : ℕ} {a : α} (h : l[i]? = some a) :
    l.set i a = l := by
  obtain ⟨hi, rfl⟩ := List.getElem?_eq_some_iff.mp h
  exact List.set_getElem_self hi

theorem respond_registries (s : Traffic) (j : ℕ) (call : Call) (reg : WorkerRegistry)
    (response : Except PyExc Json) : (s.respond j call reg response).registries =
      s.registries.set call.registry (reg.answered s.now call.workerId response) := by
  show s.registries.set call.registry
    ((reg.receive s.now s.metrics call.workerId response).1.1.leave
      (reg.receive s.now s.metrics call.workerId response).1.2 call.workerId).1 = _
  rw [WorkerRegistry.receive_eq]
  rfl

theorem cancel_registries {j : ℕ} {call : Call} {reg : WorkerRegistry}
    (hreg : s.registries[call.registry]? = some reg) : ∃ semaphore,
    semaphore.free = (reg.semaphores call.workerId).free ∧ (s.cancel j call reg).registries =
      s.registries.set call.registry (reg.setSemaphore call.workerId semaphore) := by
  unfold Traffic.cancel
  cases call.phase with
  | waiting ticket => exact ⟨_, FifoSemaphore.free_cancelFuture, rfl⟩
  | posting | ended =>
    refine ⟨reg.semaphores call.workerId, rfl, ?_⟩
    rw [WorkerRegistry.setSemaphore, Function.update_eq_self]
    exact (set_eq_self hreg).symm

theorem cancel_frame (s : Traffic) (j : ℕ) (call : Call) (reg : WorkerRegistry) :
    (s.cancel j call reg).calls = s.calls.set j { call with cancelRequested := true } ∧
      (s.cancel j call reg).now = s.now ∧ (s.cancel j call reg).posts = s.posts := by
  unfold Traffic.cancel
  cases call.phase <;> exact ⟨rfl, rfl, rfl⟩

/-- What a call has done of its way, seen from its registry. -/
inductive Moves (s : Traffic) : TrafficEvent → Traffic → Prop
  | tick {seconds : ℚ} (h : 0 ≤ seconds) : Moves s (.tick seconds) { s with now := s.now + seconds }
  | refused {r : ℕ} {workerId : String} {reg : WorkerRegistry} {exc : PyExc}
      (hreg : s.registries[r]? = some reg) :
      Moves s (.call r workerId)
        { s with calls := s.calls ++ [⟨r, workerId, s.now, .ended (some (.error exc)), false⟩] }
  | queued {r : ℕ} {workerId : String} {reg : WorkerRegistry} (hreg : s.registries[r]? = some reg)
      (havail : (reg.circuits workerId).downUntil ≤ s.now) :
      Moves s (.call r workerId)
        { s.setRegistry r (reg.setSemaphore workerId (reg.semaphores workerId).enqueue) with
          calls := s.calls ++
            [⟨r, workerId, s.now, .waiting (reg.semaphores workerId).tickets, false⟩] }
  | entered {r : ℕ} {workerId : String} {reg : WorkerRegistry} (hreg : s.registries[r]? = some reg)
      (havail : (reg.circuits workerId).downUntil ≤ s.now)
      (hfree : (reg.semaphores workerId).locked = false) :
      Moves s (.call r workerId)
        { (s.setRegistry r (reg.enter workerId (reg.semaphores workerId).take)).post r reg workerId with
          calls := s.calls ++ [⟨r, workerId, s.now, .posting, false⟩] }
  | resumed {j : ℕ} {call : Call} {reg : WorkerRegistry} {ticket : ℕ}
      (hcall : s.calls[j]? = some call) (hreg : s.registries[call.registry]? = some reg)
      (hph : call.phase = .waiting ticket) (hreq : call.cancelRequested = false)
      (hgrant : (reg.semaphores call.workerId).future ticket = some .granted) :
      Moves s (.resume j) (s.resume j call reg ticket)
  | answered {j : ℕ} {response : Except PyExc Json} {call : Call} {reg : WorkerRegistry}
      (hcall : s.calls[j]? = some call) (hreg : s.registries[call.registry]? = some reg)
      (hph : call.phase = .posting) (hreq : call.cancelRequested = false) :
      Moves s (.respond j response) (s.respond j call reg response)
  | cancel {j : ℕ} {call : Call} {reg : WorkerRegistry} (hcall : s.calls[j]? = some call)
      (hreg : s.registries[call.registry]? = some reg) :
      Moves s (.cancel j) (s.cancel j call reg)
  | abandoned {j : ℕ} {call : Call} {reg : WorkerRegistry} {ticket : ℕ}
      (hcall : s.calls[j]? = some call) (hreg : s.registries[call.registry]? = some reg)
      (hph : call.phase = .waiting ticket) (hreq : call.cancelRequested = true) :
      Moves s (.throwCancelled j)
        ((s.setRegistry call.registry (reg.setSemaphore call.workerId
          ((reg.semaphores call.workerId).abandon ticket))).setPhase j call (.ended none))
  | aborted {j : ℕ} {call : Call} {reg : WorkerRegistry} (hcall : s.calls[j]? = some call)
      (hreg : s.registries[call.registry]? = some reg) (hph : call.phase = .posting)
      (hreq : call.cancelRequested = true) :
      Moves s (.throwCancelled j)
        { (s.setRegistry call.registry (reg.leave s.metrics call.workerId).1).setPhase j call
            (.ended none) with metrics := (reg.leave s.metrics call.workerId).2 }
  | reload {workers : List WorkerConfig} {breaker : CircuitBreakerConfig} :
      Moves s (.reload workers breaker)
        { s with registries := s.registries ++ [.new workers breaker] }

theorem call_moves {r : ℕ} {workerId : String} {reg : WorkerRegistry}
    (hreg : s.registries[r]? = some reg) : s.Moves (.call r workerId) (s.call r reg workerId) := by
  unfold Traffic.call
  cases hget : reg.get workerId with
  | error exc => exact .refused hreg
  | ok w =>
    cases havail : reg.assertAvailable s.now workerId with
    | error exc => exact .refused hreg
    | ok _ =>
      have hcircuit := WorkerRegistry.assertAvailable_eq_ok.mp havail
      cases hlocked : (reg.semaphores workerId).locked with
      | true =>
        simp only [hlocked, if_true]
        exact .queued hreg hcircuit
      | false =>
        simp only [hlocked, Bool.false_eq_true, if_false]
        exact .entered hreg hcircuit hlocked

theorem step_moves (h : s.step e = some s') : s.Moves e s' := by
  cases e with
  | tick seconds =>
    simp only [step] at h
    split at h
    · next hs =>
      cases h
      exact .tick hs
    · cases h
  | call r workerId =>
    obtain ⟨reg, hreg, rfl⟩ := Option.map_eq_some_iff.mp h
    exact call_moves hreg
  | resume j =>
    obtain ⟨⟨call, reg⟩, hl, h⟩ := Option.bind_eq_some_iff.mp h
    obtain ⟨hcall, hreg⟩ := lookup_eq_some.mp hl
    simp only at h
    split at h
    · next ticket hph =>
      split at h
      · next hg =>
        cases h
        exact .resumed hcall hreg hph hg.1 hg.2
      · cases h
    · cases h
  | respond j response =>
    obtain ⟨⟨call, reg⟩, hl, h⟩ := Option.bind_eq_some_iff.mp h
    obtain ⟨hcall, hreg⟩ := lookup_eq_some.mp hl
    simp only at h
    split at h
    · next hph =>
      split at h
      · cases h
      · next hreq =>
        cases h
        exact .answered hcall hreg hph (by simpa using hreq)
    · cases h
  | cancel j =>
    obtain ⟨⟨call, reg⟩, hl, h⟩ := Option.bind_eq_some_iff.mp h
    obtain ⟨hcall, hreg⟩ := lookup_eq_some.mp hl
    simp only at h
    split at h
    · cases h
    · cases h
      exact .cancel hcall hreg
  | throwCancelled j =>
    obtain ⟨⟨call, reg⟩, hl, h⟩ := Option.bind_eq_some_iff.mp h
    obtain ⟨hcall, hreg⟩ := lookup_eq_some.mp hl
    simp only at h
    split at h
    · next hreq =>
      unfold throwCancelled at h
      split at h
      · next ticket hph =>
        cases h
        exact .abandoned hcall hreg hph hreq
      · next hph =>
        cases h
        exact .aborted hcall hreg hph hreq
      · cases h
    · cases h
  | reload workers breaker =>
    cases h
    exact .reload

/-- The call `j` takes a step by `e`. -/
structure Changes (s : Traffic) (e : TrafficEvent) (s' : Traffic) (j : ℕ) (c c' : Call) : Prop where
  before : s.calls[j]? = some c
  calls : s'.calls = s.calls.set j c'
  workerId : c'.workerId = c.workerId
  ended : c'.phase.isEnded = (c.phase.isEnded || e.ends)
  asked : c.cancelRequested = true → c'.cancelRequested = true

namespace Changes

variable {j : ℕ} {c c' : Call}

theorem after (h : s.Changes e s' j c c') : s'.calls[j]? = some c' := by
  rw [h.calls, List.getElem?_set_self (List.getElem?_eq_some_iff.mp h.before).1]

theorem other {k : ℕ} (h : s.Changes e s' j c c') (hne : k ≠ j) : s'.calls[k]? = s.calls[k]? := by
  rw [h.calls, List.getElem?_set_ne (Ne.symm hne)]

end Changes

theorem Moves.changes {j : ℕ} (h : s.Moves e s') (he : e.place = some j) :
    ∃ c c', s.Changes e s' j c c' := by
  cases h with
  | tick | refused | queued | entered | reload => cases he
  | resumed hcall _ hph =>
    cases he
    exact ⟨_, _, hcall, rfl, rfl, by rw [hph]; rfl, id⟩
  | answered hcall _ hph =>
    cases he
    exact ⟨_, _, hcall, rfl, rfl, by rw [hph]; rfl, id⟩
  | @cancel k call reg hcall =>
    cases he
    exact ⟨call, _, hcall, (cancel_frame s j call reg).1, rfl, (Bool.or_false _).symm, fun _ => rfl⟩
  | abandoned hcall _ hph =>
    cases he
    exact ⟨_, _, hcall, rfl, rfl, by rw [hph]; rfl, id⟩
  | aborted hcall _ hph =>
    cases he
    exact ⟨_, _, hcall, rfl, rfl, by rw [hph]; rfl, id⟩

theorem Moves.calls (h : s.Moves e s') :
    (∃ r workerId phase, e = .call r workerId ∧
      s'.calls = s.calls ++ [⟨r, workerId, s.now, phase, false⟩] ∧ (phase.isEnded = true ∨
        ∃ reg, s.registries[r]? = some reg ∧ (reg.circuits workerId).downUntil ≤ s.now)) ∨
    (∃ j call phase requested, s.calls[j]? = some call ∧
      s'.calls = s.calls.set j { call with phase := phase, cancelRequested := requested } ∧
      (phase.isEnded = false → call.phase.isEnded = false)) ∨
    s'.calls = s.calls := by
  cases h with
  | tick => exact Or.inr (Or.inr rfl)
  | refused => exact Or.inl ⟨_, _, _, rfl, rfl, Or.inl rfl⟩
  | queued hreg havail => exact Or.inl ⟨_, _, _, rfl, rfl, Or.inr ⟨_, hreg, havail⟩⟩
  | entered hreg havail => exact Or.inl ⟨_, _, _, rfl, rfl, Or.inr ⟨_, hreg, havail⟩⟩
  | resumed hcall _ hph =>
    refine Or.inr (Or.inl ⟨_, _, .posting, _, hcall, rfl, fun _ => ?_⟩)
    rw [hph]
    rfl
  | answered hcall _ hph =>
    refine Or.inr (Or.inl ⟨_, _, _, _, hcall, rfl, fun _ => ?_⟩)
    rw [hph]
    rfl
  | @cancel j call reg hcall =>
    exact Or.inr (Or.inl ⟨j, call, call.phase, true, hcall, (cancel_frame s j call reg).1, id⟩)
  | abandoned hcall _ hph =>
    refine Or.inr (Or.inl ⟨_, _, .ended none, _, hcall, rfl, fun _ => ?_⟩)
    rw [hph]
    rfl
  | aborted hcall _ hph =>
    refine Or.inr (Or.inl ⟨_, _, .ended none, _, hcall, rfl, fun _ => ?_⟩)
    rw [hph]
    rfl
  | reload => exact Or.inr (Or.inr rfl)

theorem Moves.proceeded {j : ℕ} (h : s.Moves (.resume j) s') : ∃ c, s.calls[j]? = some c ∧
    c.phase.isEnded = false ∧ c.cancelRequested = false := by
  cases h with
  | resumed hcall _ hph hreq => exact ⟨_, hcall, by rw [hph]; rfl, hreq⟩

theorem Moves.called {r : ℕ} {workerId : String} (h : s.Moves (.call r workerId) s') :
    ∃ c, s'.calls = s.calls ++ [c] ∧ c.workerId = workerId ∧ c.cancelRequested = false := by
  cases h with
  | refused => exact ⟨_, rfl, rfl, rfl⟩
  | queued => exact ⟨_, rfl, rfl, rfl⟩
  | entered => exact ⟨_, rfl, rfl, rfl⟩

theorem countP_set_add {α : Type*} (p : α → Bool) {l : List α} {i : ℕ} {a : α}
    (h : l[i]? = some a) (b : α) :
    (l.set i b).countP p + (if p a then 1 else 0) = l.countP p + if p b then 1 else 0 := by
  induction l generalizing i with
  | nil => cases h
  | cons x xs ih =>
    cases i with
    | zero =>
      cases h
      rw [List.set_cons_zero, List.countP_cons, List.countP_cons]
      omega
    | succ i =>
      have := ih h
      rw [List.set_cons_succ, List.countP_cons, List.countP_cons]
      omega

/-- The POSTs in flight to a worker that a registry has started. -/
def posting (s : Traffic) (r : ℕ) (workerId : String) : ℕ :=
  s.calls.countP fun c =>
    decide (c.registry = r) && decide (c.workerId = workerId) && c.phase.isPosting

section Posting

variable {j r : ℕ} {workerId : String} {call : Call} {phase : CallPhase} {requested : Bool}

theorem posting_of_set (hcall : s.calls[j]? = some call)
    (hcalls : s'.calls = s.calls.set j { call with phase := phase, cancelRequested := requested }) :
    s'.posting call.registry call.workerId + (if call.phase.isPosting then 1 else 0) =
      s.posting call.registry call.workerId + if phase.isPosting then 1 else 0 := by
  have hset := countP_set_add (fun c : Call => decide (c.registry = call.registry) &&
    decide (c.workerId = call.workerId) && c.phase.isPosting) hcall
    { call with phase := phase, cancelRequested := requested }
  unfold posting
  rw [hcalls]
  simp only [decide_true, Bool.true_and] at hset
  exact hset

theorem posting_other_of_set (hcall : s.calls[j]? = some call)
    (hcalls : s'.calls = s.calls.set j { call with phase := phase, cancelRequested := requested })
    (r : ℕ) (w : String) (hne : r ≠ call.registry ∨ w ≠ call.workerId) :
    s'.posting r w = s.posting r w := by
  have hset := countP_set_add (fun c : Call => decide (c.registry = r) &&
    decide (c.workerId = w) && c.phase.isPosting) hcall
    { call with phase := phase, cancelRequested := requested }
  have hout : (decide (call.registry = r) && decide (call.workerId = w)) = false := by
    rcases hne with hne | hne
    · simp [Ne.symm hne]
    · simp [Ne.symm hne]
  unfold posting
  rw [hcalls]
  simp only [hout, Bool.false_and, Bool.false_eq_true, if_false] at hset
  exact hset

theorem posting_of_append
    (hcalls : s'.calls = s.calls ++ [⟨r, workerId, s.now, phase, requested⟩]) :
    s'.posting r workerId = s.posting r workerId + if phase.isPosting then 1 else 0 := by
  unfold posting
  rw [hcalls, List.countP_append, List.countP_singleton]
  simp only [decide_true, Bool.true_and]

theorem posting_other_of_append
    (hcalls : s'.calls = s.calls ++ [⟨r, workerId, s.now, phase, requested⟩]) (r' : ℕ) (w : String)
    (hne : r' ≠ r ∨ w ≠ workerId) : s'.posting r' w = s.posting r' w := by
  have hout : (decide (r = r') && decide (workerId = w)) = false := by
    rcases hne with hne | hne
    · simp [Ne.symm hne]
    · simp [Ne.symm hne]
  unfold posting
  rw [hcalls, List.countP_append, List.countP_singleton]
  simp only [hout, Bool.false_and, Bool.false_eq_true, if_false, Nat.add_zero]

end Posting

def free (s : Traffic) (r : ℕ) (workerId : String) : ℕ :=
  (s.registries[r]?).elim 0 fun reg => (reg.semaphores workerId).free

def slots (s : Traffic) (r : ℕ) (workerId : String) : ℕ :=
  (s.registries[r]?).elim 0 fun reg => WorkerRegistry.capacity reg.workers workerId

structure Balanced (s : Traffic) : Prop where
  known : ∀ call ∈ s.calls, call.registry < s.registries.length
  balance : ∀ r workerId, s.posting r workerId + s.free r workerId = s.slots r workerId

theorem Balanced.exchange {r : ℕ} {workerId : String} {reg reg' : WorkerRegistry}
    (hb : s.Balanced) (hreg : s.registries[r]? = some reg)
    (hregs : s'.registries = s.registries.set r reg') (hworkers : reg'.workers = reg.workers)
    (hsem : ∀ w, w ≠ workerId → reg'.semaphores w = reg.semaphores w)
    (hknown : ∀ call ∈ s'.calls, call.registry < s.registries.length)
    (hother : ∀ r' w, r' ≠ r ∨ w ≠ workerId → s'.posting r' w = s.posting r' w)
    (hslot : s'.posting r workerId + (reg'.semaphores workerId).free =
      s.posting r workerId + (reg.semaphores workerId).free) : s'.Balanced := by
  have hlt : r < s.registries.length := (List.getElem?_eq_some_iff.mp hreg).1
  refine ⟨?_, ?_⟩
  · rw [hregs, List.length_set]
    exact hknown
  · intro r' w
    have hold := hb.balance r' w
    unfold free slots at hold ⊢
    rw [hregs]
    -- Only the slots of this worker in this registry can have changed hands.
    by_cases hr : r = r'
    · subst hr
      rw [hreg] at hold
      rw [List.getElem?_set_self hlt]
      simp only [Option.elim_some, hworkers] at hold ⊢
      by_cases hw : w = workerId
      · subst hw
        omega
      · rw [hsem w hw, hother r w (Or.inr hw)]
        exact hold
    · rw [List.getElem?_set_ne hr, hother r' w (Or.inl fun he => hr he.symm)]
      exact hold

theorem Balanced.goOn {j : ℕ} {call : Call} {reg reg' : WorkerRegistry} {phase : CallPhase}
    {requested : Bool} (hb : s.Balanced) (hcall : s.calls[j]? = some call)
    (hreg : s.registries[call.registry]? = some reg)
    (hcalls : s'.calls = s.calls.set j { call with phase := phase, cancelRequested := requested })
    (hregs : s'.registries = s.registries.set call.registry reg')
    (hworkers : reg'.workers = reg.workers)
    (hsem : ∀ w, w ≠ call.workerId → reg'.semaphores w = reg.semaphores w)
    (hslot : (if phase.isPosting then 1 else 0) + (reg'.semaphores call.workerId).free =
      (if call.phase.isPosting then 1 else 0) + (reg.semaphores call.workerId).free) :
    s'.Balanced := by
  refine hb.exchange hreg hregs hworkers hsem ?_ (posting_other_of_set hcall hcalls) ?_
  · intro c hc
    rw [hcalls] at hc
    rcases List.mem_or_eq_of_mem_set hc with hc | rfl
    · exact hb.known c hc
    · exact hb.known call (List.mem_of_getElem? hcall)
  · have := posting_of_set hcall hcalls
    omega

theorem Balanced.begin {r : ℕ} {workerId : String} {reg reg' : WorkerRegistry} {phase : CallPhase}
    (hb : s.Balanced) (hreg : s.registries[r]? = some reg)
    (hcalls : s'.calls = s.calls ++ [⟨r, workerId, s.now, phase, false⟩])
    (hregs : s'.registries = s.registries.set r reg') (hworkers : reg'.workers = reg.workers)
    (hsem : ∀ w, w ≠ workerId → reg'.semaphores w = reg.semaphores w)
    (hslot : (if phase.isPosting then 1 else 0) + (reg'.semaphores workerId).free =
      (reg.semaphores workerId).free) : s'.Balanced := by
  refine hb.exchange hreg hregs hworkers hsem ?_ (posting_other_of_append hcalls) ?_
  · intro c hc
    rw [hcalls] at hc
    rcases List.mem_append.mp hc with hc | hc
    · exact hb.known c hc
    · rw [List.mem_singleton] at hc
      exact hc ▸ (List.getElem?_eq_some_iff.mp hreg).1
  · have := posting_of_append hcalls
    omega

theorem Moves.balanced (hb : s.Balanced) (h : s.Moves e s') : s'.Balanced := by
  cases h with
  | tick => exact ⟨hb.known, hb.balance⟩
  | refused hreg =>
    refine hb.begin hreg rfl (set_eq_self hreg).symm rfl (fun _ _ => rfl) ?_
    exact Nat.zero_add _
  | queued hreg =>
    refine hb.begin hreg rfl rfl rfl (fun w hw => Function.update_of_ne hw _ _) ?_
    simp only [CallPhase.isPosting, WorkerRegistry.setSemaphore, Function.update_self,
      FifoSemaphore.free_enqueue, Bool.false_eq_true, if_false, Nat.zero_add]
  | entered hreg _ hfree =>
    refine hb.begin hreg rfl rfl rfl (fun w hw => Function.update_of_ne hw _ _) ?_
    have htake := FifoSemaphore.free_take hfree
    simp only [CallPhase.isPosting, WorkerRegistry.enter, WorkerRegistry.setSemaphore,
      Function.update_self, if_true]
    omega
  | resumed hcall hreg hph _ hgrant =>
    refine hb.goOn hcall hreg rfl rfl rfl (fun w hw => Function.update_of_ne hw _ _) ?_
    have hresume := FifoSemaphore.free_resume hgrant
    simp only [hph, CallPhase.isPosting, WorkerRegistry.enter, WorkerRegistry.setSemaphore,
      Function.update_self, if_true, Bool.false_eq_true, if_false]
    omega
  | @answered j response call reg hcall hreg hph =>
    refine hb.goOn hcall hreg rfl (respond_registries s j call reg response) rfl
      (fun w hw => Function.update_of_ne hw _ _) ?_
    simp only [hph, CallPhase.isPosting, WorkerRegistry.answered, Function.update_self,
      FifoSemaphore.free_release, if_true, Bool.false_eq_true, if_false]
    omega
  | @cancel j call reg hcall hreg =>
    obtain ⟨semaphore, hfree, hregs⟩ := cancel_registries (j := j) hreg
    refine hb.goOn hcall hreg (cancel_frame s j call reg).1 hregs rfl
      (fun w hw => Function.update_of_ne hw _ _) ?_
    simp only [WorkerRegistry.setSemaphore, Function.update_self, hfree]
  | abandoned hcall hreg hph =>
    refine hb.goOn hcall hreg rfl rfl rfl (fun w hw => Function.update_of_ne hw _ _) ?_
    simp only [hph, CallPhase.isPosting, WorkerRegistry.setSemaphore, Function.update_self,
      FifoSemaphore.free_abandon, Bool.false_eq_true, if_false]
  | aborted hcall hreg hph =>
    refine hb.goOn hcall hreg rfl rfl rfl (fun w hw => Function.update_of_ne hw _ _) ?_
    simp only [hph, CallPhase.isPosting, WorkerRegistry.leave, WorkerRegistry.setSemaphore,
      Function.update_self, FifoSemaphore.free_release, if_true, Bool.false_eq_true, if_false]
    omega
  | @reload workers breaker =>
    refine ⟨?_, ?_⟩
    · intro call hc
      rw [List.length_append]
      exact Nat.lt_add_right _ (hb.known call hc)
    · intro r w
      have hold := hb.balance r w
      by_cases hr : r < s.registries.length
      · unfold free slots at hold ⊢
        rw [List.getElem?_append_left hr]
        exact hold
      · -- No call was made on a registry that is new.
        have hnone : s.posting r w = 0 := by
          unfold posting
          rw [List.countP_eq_zero]
          intro call hc
          have hlt := hb.known call hc
          have hne : call.registry ≠ r := by omega
          simp [hne]
        unfold free slots
        rw [show ({ s with registries := s.registries ++ [.new workers breaker] } :
          Traffic).posting r w = 0 from hnone]
        by_cases he : r = s.registries.length
        · subst he
          simp [WorkerRegistry.new]
        · rw [List.getElem?_eq_none (by rw [List.length_append, List.length_singleton]; omega)]
          rfl

variable {workers : List WorkerConfig} {breaker : CircuitBreakerConfig}

theorem balanced_start : (machine workers breaker).start.Balanced := by
  refine ⟨List.forall_mem_nil _, ?_⟩
  intro r w
  show 0 + _ = _
  unfold free slots
  by_cases hr : r = 0
  · subst hr
    exact Nat.zero_add _
  · have hnone : (machine workers breaker).start.registries[r]? = none :=
      List.getElem?_eq_none (Nat.one_le_iff_ne_zero.mpr hr)
    rw [hnone]
    rfl

theorem balanced_of_reachable {ok : Traffic → TrafficEvent → Prop}
    (h : (machine workers breaker).Reachable ok s) : s.Balanced :=
  h.invariant balanced_start fun _ _ _ _ hb hs => (step_moves hs).balanced hb

theorem Balanced.posting_le (hb : s.Balanced) (r : ℕ) (workerId : String) :
    s.posting r workerId ≤ s.slots r workerId := by
  have := hb.balance r workerId
  omega

end Traffic

end WorkerBridge
