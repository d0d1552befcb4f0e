import WorkerBridge.Draining
import WorkerBridge.Reload
import WorkerBridge.Wakeups

namespace WorkerBridge

namespace Traffic

variable {s s' : Traffic} {e : TrafficEvent}

/-- The ticket a call waits with at the semaphore of a worker, and whether it has been cancelled. -/
def ticket (c : Call) (r : ℕ) (workerId : String) : Option (ℕ × Bool) :=
  if c.registry = r ∧ c.workerId = workerId then
    match c.phase with
    | .waiting ticket => some (ticket, c.cancelRequested)
    | .posting | .ended _ => none
  else none

/-- The clients of the semaphore of a worker are the calls that wait there. -/
def clients (s : Traffic) (r : ℕ) (workerId : String) : ℕ → Option (ℕ × Bool) :=
  FifoSemaphore.clientsOf (fun c => ticket c r workerId) s.calls

def Queued (s : Traffic) : Prop :=
  ∀ (r : ℕ) (reg : WorkerRegistry), s.registries[r]? = some reg →
    ∀ workerId, (reg.semaphores workerId).Serves (s.clients r workerId)

/-- A live call has been accepted by a worker that has slots. -/
def Roomy (s : Traffic) : Prop :=
  ∀ c ∈ s.calls, c.phase.isEnded = false → 1 ≤ s.slots c.registry c.workerId

section Clients

variable {j r t : ℕ} {c c' : Call} {workerId : String} {asked : Bool} {reg reg' : WorkerRegistry}

theorem ticket_of_waiting (hph : c.phase = .waiting t) :
    ticket c c.registry c.workerId = some (t, c.cancelRequested) := by
  unfold ticket
  rw [if_pos ⟨rfl, rfl⟩, hph]

theorem ticket_of_not (h : ∀ t, c.phase ≠ .waiting t) (r : ℕ) (workerId : String) :
    ticket c r workerId = none := by
  unfold ticket
  split
  · cases hph : c.phase with
    | waiting t => exact absurd hph (h t)
    | posting | ended => rfl
  · rfl

theorem ticket_other (h : r ≠ c.registry ∨ workerId ≠ c.workerId) : ticket c r workerId = none := by
  unfold ticket
  rw [if_neg]
  rintro ⟨hr, hw⟩
  exact h.elim (absurd hr.symm) (absurd hw.symm)

theorem of_clients (h : s.clients r workerId j = some (t, asked)) : ∃ c, s.calls[j]? = some c ∧
    c.registry = r ∧ c.workerId = workerId ∧ c.phase = .waiting t ∧ c.cancelRequested = asked := by
  obtain ⟨c, hc, hticket⟩ := Option.bind_eq_some_iff.mp h
  unfold ticket at hticket
  split at hticket
  · next hsame =>
    refine ⟨c, hc, hsame.1, hsame.2, ?_⟩
    cases hph : c.phase with
    | waiting t =>
      simp only [hph, Option.some.injEq, Prod.mk.injEq] at hticket
      exact ⟨congrArg _ hticket.1, hticket.2⟩
    | posting | ended =>
      simp only [hph] at hticket
      cases hticket
  · cases hticket

theorem clients_of_waiting (hc : s.calls[j]? = some c) (hph : c.phase = .waiting t) :
    s.clients c.registry c.workerId j = some (t, c.cancelRequested) :=
  (FifoSemaphore.clientsOf_eq hc).trans (ticket_of_waiting hph)

theorem Queued.exchange (h : s.Queued) (hreg : s.registries[r]? = some reg)
    (hregs : s'.registries = s.registries.set r reg')
    (hsem : ∀ w, w ≠ workerId → reg'.semaphores w = reg.semaphores w)
    (hother : ∀ r' w, (r' ≠ r ∨ w ≠ workerId) → s'.clients r' w = s.clients r' w)
    (hserves : (reg'.semaphores workerId).Serves (s'.clients r workerId)) : s'.Queued := by
  intro r' reg₁ hreg₁ w
  by_cases hr : r' = r
  · subst hr
    rw [hregs, List.getElem?_set_self (List.getElem?_eq_some_iff.mp hreg).1] at hreg₁
    cases hreg₁
    by_cases hw : w = workerId
    · rw [hw]
      exact hserves
    · rw [hsem w hw, hother r' w (Or.inr hw)]
      exact h r' reg hreg w
  · rw [hregs, List.getElem?_set_ne (Ne.symm hr)] at hreg₁
    rw [hother r' w (Or.inl hr)]
    exact h r' reg₁ hreg₁ w

theorem Queued.set {phase : CallPhase} {requested : Bool} (h : s.Queued)
    (hc : s.calls[j]? = some c) (hreg : s.registries[c.registry]? = some reg)
    (hcalls : s'.calls = s.calls.set j { c with phase := phase, cancelRequested := requested })
    (hregs : s'.registries = s.registries.set c.registry reg')
    (hsem : ∀ w, w ≠ c.workerId → reg'.semaphores w = reg.semaphores w)
    (hserves : (reg'.semaphores c.workerId).Serves (s'.clients c.registry c.workerId)) :
    s'.Queued := by
  refine h.exchange hreg hregs hsem ?_ hserves
  intro r' w hne
  unfold clients
  rw [hcalls]
  exact FifoSemaphore.clientsOf_same hc ((ticket_other (by exact hne)).trans (ticket_other hne).symm)

theorem Queued.leave {phase : CallPhase} (h : s.Queued) (hc : s.calls[j]? = some c)
    (hreg : s.registries[c.registry]? = some reg)
    (hcalls : s'.calls = s.calls.set j { c with phase := phase })
    (hregs : s'.registries = s.registries.set c.registry reg')
    (hsem : ∀ w, w ≠ c.workerId → reg'.semaphores w = reg.semaphores w)
    (hphase : ∀ t, phase ≠ .waiting t)
    (hserves : (reg'.semaphores c.workerId).Serves
      (Function.update (s.clients c.registry c.workerId) j none)) : s'.Queued := by
  refine h.set hc hreg hcalls hregs hsem ?_
  unfold clients
  rw [hcalls, FifoSemaphore.clientsOf_set hc, ticket_of_not hphase]
  exact hserves

theorem Queued.release {phase : CallPhase} (h : s.Queued) (hc : s.calls[j]? = some c)
    (hreg : s.registries[c.registry]? = some reg)
    (hcalls : s'.calls = s.calls.set j { c with phase := phase })
    (hregs : s'.registries = s.registries.set c.registry reg')
    (hsem : reg'.semaphores =
      Function.update reg.semaphores c.workerId (reg.semaphores c.workerId).release)
    (hold : ∀ t, c.phase ≠ .waiting t) (hphase : ∀ t, phase ≠ .waiting t) : s'.Queued := by
  refine h.set hc hreg hcalls hregs (fun w hw => ?_) ?_
  · rw [hsem, Function.update_of_ne hw]
  · have hsame : s'.clients c.registry c.workerId = s.clients c.registry c.workerId := by
      unfold clients
      rw [hcalls]
      exact FifoSemaphore.clientsOf_same hc (by rw [ticket_of_not hphase, ticket_of_not hold])
    rw [hsame, hsem, Function.update_self]
    exact (h _ reg hreg c.workerId).release

end Clients

section Steps

variable {r : ℕ} {reg : WorkerRegistry} {workerId : String}

/-- A call is refused, or its worker is known, and it waits exactly if the semaphore is locked. -/
inductive Begins (s : Traffic) (r : ℕ) (reg : WorkerRegistry) (workerId : String) : Traffic → Prop
  | refused (exc : PyExc) : Begins s r reg workerId
      { s with calls := s.calls ++ [⟨r, workerId, s.now, .ended (some (.error exc)), false⟩] }
  | queued {worker : WorkerConfig} (hfind : WorkerRegistry.find reg.workers workerId = some worker)
      (hlocked : (reg.semaphores workerId).locked = true) : Begins s r reg workerId
        { s.setRegistry r (reg.setSemaphore workerId (reg.semaphores workerId).enqueue) with
          calls := s.calls ++
            [⟨r, workerId, s.now, .waiting (reg.semaphores workerId).tickets, false⟩] }
  | entered {worker : WorkerConfig} (hfind : WorkerRegistry.find reg.workers workerId = some worker)
      (hfree : (reg.semaphores workerId).locked = false) : Begins s r reg workerId
        { (s.setRegistry r (reg.enter workerId (reg.semaphores workerId).take)).post r reg workerId with
          calls := s.calls ++ [⟨r, workerId, s.now, .posting, false⟩] }

theorem call_begins (s : Traffic) (r : ℕ) (reg : WorkerRegistry) (workerId : String) :
    Begins s r reg workerId (s.call r reg workerId) := by
  unfold Traffic.call
  cases hget : reg.get workerId with
  | error exc => exact .refused exc
  | ok worker =>
    have hfind : WorkerRegistry.find reg.workers workerId = some worker := by
      unfold WorkerRegistry.get at hget
      split at hget
      · next w hw => rw [hw, Except.ok.inj hget]
      · cases hget
    cases reg.assertAvailable s.now workerId with
    | error exc => exact .refused exc
    | ok _ =>
      cases hlocked : (reg.semaphores workerId).locked with
      | true =>
        simp only [hlocked, if_true]
        exact .queued hfind hlocked
      | false =>
        simp only [hlocked, Bool.false_eq_true, if_false]
        exact .entered hfind hlocked

theorem Moves.takes {j : ℕ} (h : s.Moves e s') (he : e.place = some j) (hcancel : e ≠ .cancel j) :
    ∃ c phase, s.calls[j]? = some c ∧ c.phase.isEnded = false ∧
      s'.calls = s.calls.set j { c with phase := phase } ∧ phase.isEnded = e.ends := by
  cases h with
  | tick | refused | queued | entered | reload => cases he
  | resumed hcall _ hph =>
    cases he
    exact ⟨_, _, hcall, by rw [hph]; rfl, rfl, rfl⟩
  | answered hcall _ hph =>
    cases he
    exact ⟨_, _, hcall, by rw [hph]; rfl, rfl, rfl⟩
  | cancel =>
    cases he
    exact absurd rfl hcancel
  | abandoned hcall _ hph =>
    cases he
    exact ⟨_, _, hcall, by rw [hph]; rfl, rfl, rfl⟩
  | aborted hcall _ hph =>
    cases he
    exact ⟨_, _, hcall, by rw [hph]; rfl, rfl, rfl⟩

theorem Moves.answer {j : ℕ} {response : Except PyExc Json} (h : s.Moves (.respond j response) s') :
    ∃ c result, s.calls[j]? = some c ∧ c.phase.isEnded = false ∧ c.cancelRequested = false ∧
      s'.calls[j]? = some { c with phase := .ended (some result) } := by
  cases h with
  | @answered _ _ call reg hcall _ hph hreq =>
    refine ⟨call, (reg.receive s.now s.metrics call.workerId response).2, hcall, by rw [hph]; rfl,
      hreq, ?_⟩
    exact List.getElem?_set_self (List.getElem?_eq_some_iff.mp hcall).1

theorem Begins.keepsQueues (h : s.Queued) (hreg : s.registries[r]? = some reg)
    (hb : Begins s r reg workerId s') : s'.Queued := by
  have hserves := h r reg hreg workerId
  have hother : ∀ phase, s'.calls = s.calls ++ [⟨r, workerId, s.now, phase, false⟩] →
      ∀ r' w, (r' ≠ r ∨ w ≠ workerId) → s'.clients r' w = s.clients r' w := by
    intro phase hcalls r' w hne
    unfold clients
    rw [hcalls]
    exact FifoSemaphore.clientsOf_append_none (ticket_other (by exact hne))
  have hplain : ∀ phase, s'.calls = s.calls ++ [⟨r, workerId, s.now, phase, false⟩] →
      (∀ t, phase ≠ .waiting t) → s'.clients r workerId = s.clients r workerId := by
    intro phase hcalls hphase
    unfold clients
    rw [hcalls]
    exact FifoSemaphore.clientsOf_append_none (ticket_of_not hphase _ _)
  cases hb with
  | refused exc =>
    refine h.exchange hreg (set_eq_self hreg).symm (fun _ _ => rfl) (hother _ rfl) ?_
    rw [hplain _ rfl fun _ h => by cases h]
    exact hserves
  | queued hfind hlocked =>
    refine h.exchange hreg rfl (fun w hw => Function.update_of_ne hw _ _) (hother _ rfl) ?_
    unfold clients
    rw [FifoSemaphore.clientsOf_append, ticket_of_waiting rfl]
    simp only [WorkerRegistry.setSemaphore, Function.update_self]
    exact hserves.enqueue hlocked fun j x hj => FifoSemaphore.clientsOf_lt hj
  | entered hfind hfree =>
    refine h.exchange hreg rfl (fun w hw => Function.update_of_ne hw _ _) (hother _ rfl) ?_
    rw [hplain _ rfl fun _ h => by cases h]
    simp only [WorkerRegistry.enter, WorkerRegistry.setSemaphore, Function.update_self]
    exact hserves.take hfree

theorem Moves.keepsQueues (hb : s.Balanced) (h : s.Queued) (hnew : ∀ r workerId, e ≠ .call r workerId)
    (hm : s.Moves e s') : s'.Queued := by
  cases hm with
  | tick => exact h
  | refused => exact absurd rfl (hnew _ _)
  | queued => exact absurd rfl (hnew _ _)
  | entered => exact absurd rfl (hnew _ _)
  | @resumed j call reg ticket hcall hreg hph =>
    refine h.leave hcall hreg rfl rfl (fun w hw => Function.update_of_ne hw _ _) ?_ ?_
    · intro t h
      cases h
    · simp only [WorkerRegistry.enter, WorkerRegistry.setSemaphore, Function.update_self]
      exact (h _ reg hreg call.workerId).resume (clients_of_waiting hcall hph)
  | @answered j response call reg hcall hreg hph =>
    refine h.release hcall hreg rfl (respond_registries s j call reg response) rfl ?_ ?_
    · rw [hph]
      intro t h
      cases h
    · intro t h
      cases h
  | @cancel j call reg hcall hreg =>
    have hcalls := (cancel_frame s j call reg).1
    cases hph : call.phase with
    | waiting ticket =>
      have hregs : (s.cancel j call reg).registries = s.registries.set call.registry
          (reg.setSemaphore call.workerId
            ((reg.semaphores call.workerId).cancelFuture ticket)) := by
        unfold Traffic.cancel
        simp only [hph]
        rfl
      refine h.set hcall hreg hcalls hregs (fun w hw => Function.update_of_ne hw _ _) ?_
      have hticket : Traffic.ticket { call with cancelRequested := true } call.registry
          call.workerId = some (ticket, true) := ticket_of_waiting hph
      unfold clients
      rw [hcalls, FifoSemaphore.clientsOf_set hcall, hticket]
      simp only [WorkerRegistry.setSemaphore, Function.update_self]
      exact (h _ reg hreg call.workerId).cancelFuture (clients_of_waiting hcall hph)
    | posting | ended =>
      have hregs : (s.cancel j call reg).registries = s.registries.set call.registry reg := by
        unfold Traffic.cancel
        simp only [hph]
        exact (set_eq_self hreg).symm
      have hnot : ∀ t, call.phase ≠ .waiting t := by
        rw [hph]
        intro t h
        cases h
      refine h.set hcall hreg hcalls hregs (fun _ _ => rfl) ?_
      unfold clients
      rw [hcalls, FifoSemaphore.clientsOf_same hcall
        (by rw [ticket_of_not hnot, ticket_of_not (by exact hnot)])]
      exact h _ reg hreg call.workerId
  | @abandoned j call reg ticket hcall hreg hph =>
    refine h.leave hcall hreg rfl rfl (fun w hw => Function.update_of_ne hw _ _) ?_ ?_
    · intro t h
      cases h
    · simp only [WorkerRegistry.setSemaphore, Function.update_self]
      exact (h _ reg hreg call.workerId).abandon (clients_of_waiting hcall hph)
  | @aborted j call reg hcall hreg hph =>
    refine h.release hcall hreg rfl rfl rfl ?_ ?_
    · rw [hph]
      intro t h
      cases h
    · intro t h
      cases h
  | @reload workers breaker =>
    intro r reg hreg w
    rcases Nat.lt_or_ge r s.registries.length with hlt | hge
    · rw [List.getElem?_append_left hlt] at hreg
      exact h r reg hreg w
    · -- Nobody waits at a registry that is new.
      rw [List.getElem?_append_right hge] at hreg
      obtain rfl := List.mem_singleton.mp (List.mem_of_getElem? hreg)
      have hnone : clients { s with registries := s.registries ++ [.new workers breaker] } r w =
          fun _ => none := by
        funext j
        by_contra hne
        obtain ⟨⟨t, asked⟩, hx⟩ := Option.ne_none_iff_exists'.mp hne
        obtain ⟨c, hc, hr, -⟩ := of_clients hx
        have := hb.known c (List.mem_of_getElem? hc)
        omega
      rw [hnone]
      exact .new _

theorem step_queued (hb : s.Balanced) (h : s.Queued) (hstep : s.step e = some s') : s'.Queued := by
  by_cases hcall : ∃ r workerId, e = .call r workerId
  · obtain ⟨r, workerId, rfl⟩ := hcall
    obtain ⟨reg, hreg, rfl⟩ := Option.map_eq_some_iff.mp hstep
    exact (call_begins s r reg workerId).keepsQueues h hreg
  · exact (step_moves hstep).keepsQueues hb h fun r w he => hcall ⟨r, w, he⟩

end Steps

theorem slots_eq_workers (s : Traffic) (r : ℕ) (workerId : String) : s.slots r workerId =
    (s.registries.map WorkerRegistry.workers)[r]?.elim 0 (WorkerRegistry.capacity · workerId) := by
  unfold slots
  rw [List.getElem?_map]
  cases s.registries[r]? <;> rfl

theorem Moves.slots_eq (hm : s.Moves e s') {r : ℕ} (hr : r < s.registries.length)
    (workerId : String) : s'.slots r workerId = s.slots r workerId := by
  rw [slots_eq_workers, slots_eq_workers]
  rcases hm.workers with hsame | ⟨workers, -, -, hnew⟩
  · rw [hsame]
  · rw [hnew, List.getElem?_append_left (by rwa [List.length_map])]

theorem Begins.room {r : ℕ} {reg : WorkerRegistry} {workerId : String}
    (hreg : s.registries[r]? = some reg) (hb : Begins s r reg workerId s') :
    ∃ c, s'.calls = s.calls ++ [c] ∧ c.registry = r ∧
      (c.phase.isEnded = false → 1 ≤ s.slots c.registry c.workerId) := by
  have hroom : ∀ worker, WorkerRegistry.find reg.workers workerId = some worker →
      1 ≤ s.slots r workerId := by
    intro worker hfind
    unfold slots WorkerRegistry.capacity
    rw [hreg, Option.elim_some, hfind]
    exact worker.maxConcurrentTasks_pos
  cases hb with
  | refused exc =>
    refine ⟨_, rfl, rfl, fun hlive => ?_⟩
    cases hlive
  | queued hfind => exact ⟨_, rfl, rfl, fun _ => hroom _ hfind⟩
  | entered hfind => exact ⟨_, rfl, rfl, fun _ => hroom _ hfind⟩

theorem step_roomy (hb : s.Balanced) (h : s.Roomy) (hstep : s.step e = some s') : s'.Roomy := by
  have hm := step_moves hstep
  have hold : ∀ c ∈ s.calls, c.phase.isEnded = false → 1 ≤ s'.slots c.registry c.workerId := by
    intro c hc hlive
    rw [hm.slots_eq (hb.known c hc)]
    exact h c hc hlive
  intro c hc hlive
  rcases hm.calls with ⟨r, workerId, phase, rfl, -⟩ | ⟨j, call, phase, requested, hcall, hcalls, hend⟩ |
    hsame
  · obtain ⟨reg, hreg, rfl⟩ := Option.map_eq_some_iff.mp hstep
    obtain ⟨d, hcalls, hr, hroom⟩ := (call_begins s r reg workerId).room hreg
    rw [hcalls] at hc
    rcases List.mem_append.mp hc with hc | hc
    · exact hold c hc hlive
    · rw [List.mem_singleton] at hc
      subst hc
      rw [hm.slots_eq (hr ▸ (List.getElem?_eq_some_iff.mp hreg).1)]
      exact hroom hlive
  · rw [hcalls] at hc
    rcases List.mem_or_eq_of_mem_set hc with hc | rfl
    · exact hold c hc hlive
    · exact hold call (List.mem_of_getElem? hcall) (hend hlive)
  · rw [hsame] at hc
    exact hold c hc hlive

/-- The call `c` at the place `k` can take its next step, whatever its worker answers. -/
inductive Ready (s : Traffic) (k : ℕ) (c : Call) : Prop
  | thrown (hreq : c.cancelRequested = true) (h : ∃ s', s.step (.throwCancelled k) = some s')
  | granted (hreq : c.cancelRequested = false) (h : ∃ s', s.step (.resume k) = some s')
  | posting (hreq : c.cancelRequested = false)
      (h : ∀ response, ∃ s', s.step (.respond k response) = some s')

/-- What holds of the calls of every reachable state. -/
structure Sound (s : Traffic) : Prop where
  balanced : s.Balanced
  queued : s.Queued
  roomy : s.Roomy

theorem step_sound (h : s.Sound) (hstep : s.step e = some s') : s'.Sound :=
  ⟨(step_moves hstep).balanced h.balanced, step_queued h.balanced h.queued hstep,
    step_roomy h.balanced h.roomy hstep⟩

section Ready

variable {k : ℕ} {c : Call}

theorem Balanced.lookup (hb : s.Balanced) (hc : s.calls[k]? = some c) :
    ∃ reg, s.registries[c.registry]? = some reg ∧ s.lookup k = some (c, reg) := by
  have hknown := hb.known c (List.mem_of_getElem? hc)
  exact ⟨_, List.getElem?_eq_getElem hknown, lookup_eq_some.mpr ⟨hc, List.getElem?_eq_getElem hknown⟩⟩

theorem ready_of_asked (hb : s.Balanced) (hc : s.calls[k]? = some c)
    (hlive : c.phase.isEnded = false) (hreq : c.cancelRequested = true) : s.Ready k c := by
  obtain ⟨reg, hreg, hlook⟩ := hb.lookup hc
  refine .thrown hreq ?_
  simp only [step, hlook, Option.bind_some, hreq, if_true]
  unfold throwCancelled
  cases hph : c.phase with
  | waiting | posting => exact ⟨_, rfl⟩
  | ended =>
    rw [hph] at hlive
    cases hlive

theorem ready_of_posting (hb : s.Balanced) (hc : s.calls[k]? = some c)
    (hph : c.phase = .posting) : s.Ready k c := by
  obtain ⟨reg, hreg, hlook⟩ := hb.lookup hc
  cases hreq : c.cancelRequested with
  | true => exact ready_of_asked hb hc (by rw [hph]; rfl) hreq
  | false =>
    refine .posting hreq fun response => ?_
    simp only [step, hlook, Option.bind_some, hph, hreq, Bool.false_eq_true, if_false]
    exact ⟨_, rfl⟩

theorem ready_of_granted {ticket : ℕ} {reg : WorkerRegistry} (hc : s.calls[k]? = some c)
    (hreg : s.registries[c.registry]? = some reg) (hph : c.phase = .waiting ticket)
    (hreq : c.cancelRequested = false)
    (hgrant : (reg.semaphores c.workerId).future ticket = some .granted) : s.Ready k c := by
  refine .granted hreq ?_
  simp only [step, lookup_eq_some.mpr ⟨hc, hreg⟩, Option.bind_some, hph, hreq, hgrant, and_self,
    if_true]
  exact ⟨_, rfl⟩

theorem Sound.goes (h : s.Sound) (hc : s.calls[k]? = some c) (hlive : c.phase.isEnded = false) :
    ∃ (j : ℕ) (d : Call), s.calls[j]? = some d ∧ d.registry = c.registry ∧
      d.workerId = c.workerId ∧ d.phase.isEnded = false ∧ s.Ready j d := by
  -- If the call cannot move, all slots are taken, and one who has a slot can.
  obtain ⟨reg, hreg, -⟩ := h.balanced.lookup hc
  cases hph : c.phase with
  | ended =>
    rw [hph] at hlive
    cases hlive
  | posting => exact ⟨k, c, hc, rfl, rfl, hlive, ready_of_posting h.balanced hc hph⟩
  | waiting ticket =>
    have hserves := h.queued _ reg hreg c.workerId
    rcases hserves.able_or_full (clients_of_waiting hc hph) with ⟨j, t, asked, hj, hable⟩ | hfull
    · obtain ⟨d, hd, hr, hw, hdph, rfl⟩ := of_clients hj
      have hdlive : d.phase.isEnded = false := by
        rw [hdph]
        rfl
      refine ⟨j, d, hd, hr, hw, hdlive, ?_⟩
      cases hreq : d.cancelRequested with
      | true => exact ready_of_asked h.balanced hd hdlive hreq
      | false =>
        have hgrant := hable.resolve_left (by rw [hreq]; exact Bool.false_ne_true)
        exact ready_of_granted hd (hr ▸ hreg) hdph hreq (hw ▸ hgrant)
    · -- All slots are taken by calls in their POST.
      have hfree : s.free c.registry c.workerId = 0 := by
        unfold free
        rw [hreg]
        exact hfull
      have hbalance := h.balanced.balance c.registry c.workerId
      have hroom := h.roomy c (List.mem_of_getElem? hc) hlive
      have hposting : 0 < s.posting c.registry c.workerId := by omega
      obtain ⟨d, hd, hp⟩ := List.countP_pos_iff.mp hposting
      obtain ⟨j, hj⟩ := List.getElem?_of_mem hd
      simp only [Bool.and_eq_true, decide_eq_true_eq] at hp
      obtain ⟨⟨hr, hw⟩, hpost⟩ := hp
      have hdph : d.phase = .posting := by
        cases hdph : d.phase with
        | posting => rfl
        | waiting | ended =>
          rw [hdph] at hpost
          cases hpost
      exact ⟨j, d, hj, hr, hw, by rw [hdph]; rfl, ready_of_posting h.balanced hj hdph⟩

end Ready

def steps : CallPhase → ℕ
  | .waiting _ => 2
  | .posting => 1
  | .ended _ => 0

theorem steps_eq_zero {phase : CallPhase} : steps phase = 0 ↔ phase.isEnded = true := by
  cases phase <;> simp [steps, CallPhase.isEnded]

theorem Begins.phase {r : ℕ} {reg : WorkerRegistry} {workerId : String}
    (h : Begins s r reg workerId s') : ∃ phase,
    s'.calls = s.calls ++ [⟨r, workerId, s.now, phase, false⟩] ∧ steps phase ≤ 2 ∧
      (phase.isEnded = true → ∃ result, phase = .ended (some result)) := by
  cases h with
  | refused exc => exact ⟨_, rfl, Nat.zero_le _, fun _ => ⟨_, rfl⟩⟩
  | queued => exact ⟨_, rfl, le_rfl, nofun⟩
  | entered => exact ⟨_, rfl, Nat.le_succ _, nofun⟩

def work (s : Traffic) : ℕ := (s.calls.map fun c => steps c.phase).sum

def helps : TrafficEvent → Bool
  | .resume _ | .respond .. | .throwCancelled _ => true
  | .tick _ | .call .. | .cancel _ | .reload .. => false

def idles : TrafficEvent → Bool
  | .tick _ | .cancel _ | .reload .. => true
  | .call .. | .resume _ | .respond .. | .throwCancelled _ => false

theorem work_of_set {j : ℕ} {c : Call} {phase : CallPhase} {requested : Bool}
    (hcall : s.calls[j]? = some c)
    (hcalls : s'.calls = s.calls.set j { c with phase := phase, cancelRequested := requested }) :
    s'.work + steps c.phase = s.work + steps phase := by
  unfold work
  rw [hcalls]
  exact Runs.sum_set_add (fun c : Call => steps c.phase) hcall _

theorem work_lt_of_set {j : ℕ} {c : Call} {phase : CallPhase} {requested : Bool}
    (hcall : s.calls[j]? = some c)
    (hcalls : s'.calls = s.calls.set j { c with phase := phase, cancelRequested := requested })
    (hlt : steps phase < steps c.phase) : s'.work < s.work := by
  have := work_of_set hcall hcalls
  omega

theorem Moves.work_lt (hm : s.Moves e s') (he : helps e = true) : s'.work < s.work := by
  cases hm with
  | tick | refused | queued | entered | cancel | reload => cases he
  | resumed hcall _ hph => exact work_lt_of_set hcall rfl (by rw [hph]; simp [steps])
  | answered hcall _ hph => exact work_lt_of_set hcall rfl (by rw [hph]; simp [steps])
  | abandoned hcall _ hph => exact work_lt_of_set hcall rfl (by rw [hph]; simp [steps])
  | aborted hcall _ hph => exact work_lt_of_set hcall rfl (by rw [hph]; simp [steps])

theorem Moves.work_eq (hm : s.Moves e s') (he : idles e = true) : s'.work = s.work := by
  cases hm with
  | refused | queued | entered | resumed | answered | abandoned | aborted => cases he
  | tick | reload => rfl
  | @cancel j call reg hcall =>
    have hw := work_of_set hcall (cancel_frame s j call reg).1
    omega

theorem Ready.helpful {k : ℕ} {c : Call} (h : s.Ready k c) :
    ∃ e s', helps e = true ∧ s.step e = some s' := by
  cases h with
  | thrown _ h => exact ⟨_, h.choose, rfl, h.choose_spec⟩
  | granted _ h => exact ⟨_, h.choose, rfl, h.choose_spec⟩
  | posting _ h =>
    obtain ⟨s', hs'⟩ := h (.ok .null)
    exact ⟨_, s', rfl, hs'⟩

variable {workers : List WorkerConfig} {breaker : CircuitBreakerConfig}

theorem draining : (machine workers breaker).Draining Sound helps idles work where
  keeps _ _ _ hs _ hstep := step_sound hs hstep
  lowers _ _ _ _ he hstep := (step_moves hstep).work_lt he
  bears _ _ _ _ he hstep := ((step_moves hstep).work_eq he).le
  goes s hs hne := by
    obtain ⟨k, c, hc, hsteps⟩ := Runs.exists_of_sum_ne_zero (fun c : Call => steps c.phase) hne
    have hlive : c.phase.isEnded = false := by
      cases hph : c.phase with
      | waiting | posting => rfl
      | ended =>
        rw [hph] at hsteps
        exact absurd rfl hsteps
    obtain ⟨j, d, -, -, -, -, hready⟩ := hs.goes hc hlive
    exact hready.helpful

theorem sound_start : (machine workers breaker).start.Sound := by
  refine ⟨balanced_start, ?_, ?_⟩
  · intro r reg hreg workerId
    rw [List.mem_singleton.mp (List.mem_of_getElem? hreg)]
    exact .new _
  · intro c hc
    cases hc

theorem sound_of_reachable {ok : Traffic → TrafficEvent → Prop}
    (h : (machine workers breaker).Reachable ok s) : s.Sound :=
  h.invariant sound_start fun _ _ _ _ hs hstep => step_sound hs hstep

/-- The calls of a worker cannot block one another: while one is not over, one of
them can go on, they are granted slots in the order they came, and they are all over
after as many steps as they have left, if no more calls come. -/
theorem calls_go_on (h : (machine workers breaker).Reachable Runs.anyStep s) :
    (∀ (k : ℕ) (c : Call), s.calls[k]? = some c → c.phase.isEnded = false →
      ∃ (j : ℕ) (d : Call), s.calls[j]? = some d ∧ d.registry = c.registry ∧
        d.workerId = c.workerId ∧ s.Ready j d) ∧
    (∀ (j k : ℕ) (c d : Call) t t' reg, s.calls[k]? = some c → s.calls[j]? = some d →
      d.registry = c.registry → d.workerId = c.workerId → s.registries[c.registry]? = some reg →
        c.phase = .waiting t → (reg.semaphores c.workerId).future t = some .pending →
          d.phase = .waiting t' → (reg.semaphores c.workerId).future t' = some .granted → j < k) ∧
    (∀ events s', (∀ e ∈ events, (helps e || idles e) = true) →
      (machine workers breaker).run Runs.anyStep s events = some s' →
        events.countP helps + s'.work ≤ s.work) ∧
    (s.work = 0 ↔ ∀ c ∈ s.calls, c.phase.isEnded = true) := by
  have hs := sound_of_reachable h
  refine ⟨?_, ?_, ?_, ?_⟩
  · intro k c hc hlive
    obtain ⟨j, d, hd, hr, hw, -, hready⟩ := hs.goes hc hlive
    exact ⟨j, d, hd, hr, hw, hready⟩
  · intro j k c d t t' reg hc hd hr hw hreg hph hpending hph' hgranted
    have hj := clients_of_waiting hd hph'
    rw [hr, hw] at hj
    exact (hs.queued _ reg hreg c.workerId).inTurn (clients_of_waiting hc hph) hj hpending hgranted
  · intro events s' hevents hrun
    exact (draining.run_le hs hevents hrun).2
  · unfold work
    rw [Runs.sum_eq_zero_iff]
    exact forall₂_congr fun c _ => steps_eq_zero

/-- A call that waits behind one that posts, and a third whose circuit has opened meanwhile. -/
theorem calls_go_on_waiting : ∃ s : Traffic, s.work = 3 ∧
    (∃ (j : ℕ) (d : Call), s.calls[j]? = some d ∧ d.workerId = "w" ∧ s.Ready j d) ∧
    ∀ events s', (∀ e ∈ events, (helps e || idles e) = true) →
      Sample.traffic.run Runs.anyStep s events = some s' → events.countP helps ≤ 3 := by
  obtain ⟨s, hs, hp⟩ := Runs.Machine.exists_reachable_of_run Sample.traffic Runs.anyStep
    [.call 0 "w", .call 0 "w", .call 0 "w", .respond 0 Sample.failure, .resume 1, .call 0 "w"]
    (fun s => decide (s.work = 3) &&
      s.calls[2]?.any fun c => decide (c.workerId = "w") && !c.phase.isEnded) (by decide +kernel)
  rw [Bool.and_eq_true, decide_eq_true_iff, Option.any_eq_true] at hp
  obtain ⟨hwork, c, hc, hat⟩ := hp
  rw [Bool.and_eq_true, decide_eq_true_iff, Bool.not_eq_true'] at hat
  obtain ⟨hgo, -, hrun, -⟩ := calls_go_on hs
  refine ⟨s, hwork, ?_, ?_⟩
  · obtain ⟨j, d, hd, -, hw, hready⟩ := hgo 2 c hc hat.2
    exact ⟨j, d, hd, hw.trans hat.1, hready⟩
  · intro events s' hevents hsteps
    have := hrun events s' hevents hsteps
    omega

end Traffic

end WorkerBridge
