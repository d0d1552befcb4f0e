import WorkerBridge.Circuit

namespace WorkerBridge

namespace Traffic

variable {s s' : Traffic} {e : TrafficEvent}

/-- The POSTs in flight to a worker, over all registries. -/
def inFlight (s : Traffic) (workerId : String) : ℕ :=
  s.calls.countP fun c => decide (c.workerId = workerId) && c.phase.isPosting

/-- The calls of a worker that are in flight or wait for a slot. -/
def underWay (s : Traffic) (workerId : String) : ℕ :=
  s.calls.countP fun c => decide (c.workerId = workerId) && !c.phase.isEnded

/-- All calls of a worker that are under way were made on the registry `r`. -/
def Only (s : Traffic) (workerId : String) (r : ℕ) : Prop :=
  ∀ c ∈ s.calls, c.workerId = workerId → c.phase.isEnded = false → c.registry = r

/-- The worker keeps its `m` slots over reloads, and a call of it that is not
refused begins while no other registry has one under way, or while fewer than
`m` are under way in all. -/
def staged (workerId : String) (m : ℕ) (s : Traffic) : TrafficEvent → Prop
  | .call r w => w = workerId → (∃ reg ∈ s.registries[r]?, s.now < (reg.circuits w).downUntil) ∨
      s.Only workerId r ∨ s.underWay workerId < m
  | .reload workers _ => WorkerRegistry.capacity workers workerId = m
  | _ => True

structure Staged (workerId : String) (m : ℕ) (s : Traffic) : Prop where
  sized : ∀ workers ∈ s.registries.map WorkerRegistry.workers,
    WorkerRegistry.capacity workers workerId = m
  confined : s.underWay workerId ≤ m ∨ ∃ r, s.Only workerId r

theorem map_workers_set {r : ℕ} {reg reg' : WorkerRegistry} (hreg : s.registries[r]? = some reg)
    (hworkers : reg'.workers = reg.workers) :
    (s.registries.set r reg').map WorkerRegistry.workers =
      s.registries.map WorkerRegistry.workers := by
  rw [List.map_set, hworkers]
  apply set_eq_self
  rw [List.getElem?_map, hreg]
  rfl

theorem Moves.workers (h : s.Moves e s') :
    s'.registries.map WorkerRegistry.workers = s.registries.map WorkerRegistry.workers ∨
      ∃ workers breaker, e = .reload workers breaker ∧
        s'.registries.map WorkerRegistry.workers =
          s.registries.map WorkerRegistry.workers ++ [workers] := by
  cases h with
  | tick => exact Or.inl rfl
  | refused => exact Or.inl rfl
  | queued hreg => exact Or.inl (map_workers_set hreg rfl)
  | entered hreg => exact Or.inl (map_workers_set hreg rfl)
  | resumed _ hreg => exact Or.inl (map_workers_set hreg rfl)
  | @answered j response call reg _ hreg =>
    rw [respond_registries]
    exact Or.inl (map_workers_set hreg rfl)
  | @cancel j call reg _ hreg =>
    obtain ⟨semaphore, -, hregs⟩ := cancel_registries (j := j) hreg
    rw [hregs]
    exact Or.inl (map_workers_set hreg rfl)
  | abandoned _ hreg => exact Or.inl (map_workers_set hreg rfl)
  | aborted _ hreg => exact Or.inl (map_workers_set hreg rfl)
  | @reload workers breaker =>
    refine Or.inr ⟨workers, breaker, rfl, ?_⟩
    rw [List.map_append]
    rfl

variable {workerId : String} {m : ℕ}

theorem Staged.sizes (hs : Staged workerId m s) (ha : s.staged workerId m e) (h : s.Moves e s') :
    ∀ workers ∈ s'.registries.map WorkerRegistry.workers,
      WorkerRegistry.capacity workers workerId = m := by
  rcases h.workers with hsame | ⟨workers, breaker, rfl, hnew⟩
  · rw [hsame]
    exact hs.sized
  · rw [hnew]
    intro ws hws
    rcases List.mem_append.mp hws with hws | hws
    · exact hs.sized ws hws
    · rw [List.mem_singleton] at hws
      exact hws ▸ ha

theorem Staged.goOn {j : ℕ} {call : Call} {phase : CallPhase} {requested : Bool}
    (hs : Staged workerId m s) (hcall : s.calls[j]? = some call)
    (hcalls : s'.calls = s.calls.set j { call with phase := phase, cancelRequested := requested })
    (hend : phase.isEnded = false → call.phase.isEnded = false) :
    s'.underWay workerId ≤ m ∨ ∃ r, s'.Only workerId r := by
  rcases hs.confined with hle | ⟨r, hr⟩
  · refine Or.inl (le_trans ?_ hle)
    have hset := countP_set_add (fun c : Call => decide (c.workerId = workerId) &&
      !c.phase.isEnded) hcall { call with phase := phase, cancelRequested := requested }
    have hmono : (decide (call.workerId = workerId) && !phase.isEnded) = true →
        (decide (call.workerId = workerId) && !call.phase.isEnded) = true := by
      intro h
      rw [Bool.and_eq_true, Bool.not_eq_true'] at h ⊢
      exact ⟨h.1, hend h.2⟩
    unfold underWay
    rw [hcalls]
    split at hset
    · split at hset <;> omega
    · next hnot =>
      rw [if_neg fun h => hnot (hmono h)] at hset
      omega
  · refine Or.inr ⟨r, ?_⟩
    intro c hc hw hlive
    rw [hcalls] at hc
    rcases List.mem_or_eq_of_mem_set hc with hc | rfl
    · exact hr c hc hw hlive
    · exact hr call (List.mem_of_getElem? hcall) hw (hend hlive)

theorem Staged.begin {r : ℕ} {w : String} {phase : CallPhase} (hs : Staged workerId m s)
    (ha : s.staged workerId m (.call r w))
    (hcalls : s'.calls = s.calls ++ [⟨r, w, s.now, phase, false⟩])
    (hphase : phase.isEnded = true ∨
      ∃ reg, s.registries[r]? = some reg ∧ (reg.circuits w).downUntil ≤ s.now) :
    s'.underWay workerId ≤ m ∨ ∃ r, s'.Only workerId r := by
  have hcount : s'.underWay workerId = s.underWay workerId +
      if (decide (w = workerId) && !phase.isEnded) = true then 1 else 0 := by
    unfold underWay
    rw [hcalls, List.countP_append, List.countP_singleton]
  by_cases hnew : w = workerId ∧ phase.isEnded = false
  · obtain ⟨rfl, hlive⟩ := hnew
    have hone : s'.underWay w = s.underWay w + 1 := by
      rw [hcount, hlive]
      simp
    rcases ha rfl with ⟨reg, hreg, hopen⟩ | honly | hroom
    · -- An open circuit refuses the call.
      rcases hphase with hend | ⟨reg', hreg', hclosed⟩
      · rw [hlive] at hend
        cases hend
      · obtain rfl : reg' = reg := Option.some.inj (hreg'.symm.trans hreg)
        exact absurd hopen (not_lt.mpr hclosed)
    · -- All calls of the worker are of this registry, the new one too.
      refine Or.inr ⟨r, ?_⟩
      intro c hc hw hl
      rw [hcalls] at hc
      rcases List.mem_append.mp hc with hc | hc
      · exact honly c hc hw hl
      · rw [List.mem_singleton] at hc
        rw [hc]
    · exact Or.inl (by omega)
  · have hnone : (decide (w = workerId) && !phase.isEnded) = false := by
      rw [← Bool.not_eq_true, Bool.and_eq_true, decide_eq_true_iff, Bool.not_eq_true']
      exact hnew
    rcases hs.confined with hle | ⟨q, hq⟩
    · refine Or.inl ?_
      rw [hcount, hnone]
      exact hle
    · refine Or.inr ⟨q, ?_⟩
      intro c hc hw hl
      rw [hcalls] at hc
      rcases List.mem_append.mp hc with hc | hc
      · exact hq c hc hw hl
      · rw [List.mem_singleton] at hc
        subst hc
        exact absurd ⟨hw, hl⟩ hnew

theorem Moves.staged (hs : Staged workerId m s) (ha : s.staged workerId m e) (h : s.Moves e s') :
    Staged workerId m s' := by
  refine ⟨hs.sizes ha h, ?_⟩
  rcases h.calls with ⟨r, w, phase, rfl, hcalls, hphase⟩ | ⟨j, call, phase, requested, hcall,
    hcalls, hend⟩ | hcalls
  · exact hs.begin ha hcalls hphase
  · exact hs.goOn hcall hcalls hend
  · have hconf := hs.confined
    unfold underWay Only at hconf ⊢
    rw [hcalls]
    exact hconf

theorem slots_le (hs : Staged workerId m s) (r : ℕ) : s.slots r workerId ≤ m := by
  unfold slots
  cases hreg : s.registries[r]? with
  | none => exact Nat.zero_le _
  | some reg =>
    exact le_of_eq (hs.sized reg.workers (List.mem_map_of_mem (List.mem_of_getElem? hreg)))

theorem Staged.inFlight_le (hb : s.Balanced) (hs : Staged workerId m s) :
    s.inFlight workerId ≤ m := by
  rcases hs.confined with hle | ⟨r, hr⟩
  · refine le_trans ?_ hle
    apply List.countP_mono_left
    intro c _ hc
    rw [Bool.and_eq_true] at hc ⊢
    refine ⟨hc.1, ?_⟩
    have hp := hc.2
    revert hp
    cases c.phase <;> simp [CallPhase.isPosting, CallPhase.isEnded]
  · have hone : s.inFlight workerId ≤ s.posting r workerId := by
      apply List.countP_mono_left
      intro c hc hp
      rw [Bool.and_eq_true, decide_eq_true_iff] at hp
      have hlive : c.phase.isEnded = false := by
        have hposting := hp.2
        revert hposting
        cases c.phase <;> simp [CallPhase.isPosting, CallPhase.isEnded]
      rw [Bool.and_eq_true, Bool.and_eq_true, decide_eq_true_iff, decide_eq_true_iff]
      exact ⟨⟨hr c hc hp.1 hlive, hp.1⟩, hp.2⟩
    exact hone.trans ((hb.posting_le r workerId).trans (slots_le hs r))

/-- The cap of a worker holds over any number of reloads while its calls are
staged. -/
theorem inFlight_le_slots {workers : List WorkerConfig} {breaker : CircuitBreakerConfig}
    (hm : WorkerRegistry.capacity workers workerId = m)
    (h : (machine workers breaker).Reachable (Traffic.staged workerId m) s) :
    s.inFlight workerId ≤ m := by
  have hstaged : Staged workerId m s := by
    refine h.invariant ⟨?_, Or.inl (Nat.zero_le _)⟩ ?_
    · intro ws hws
      rw [show (machine workers breaker).start.registries.map WorkerRegistry.workers = [workers]
        from rfl, List.mem_singleton] at hws
      exact hws ▸ hm
    · intro s e s' ha hi hs
      exact (step_moves hs).staged hi ha
  exact hstaged.inFlight_le (balanced_of_reachable h)

instance (s : Traffic) (w : String) (r : ℕ) : Decidable (s.Only w r) :=
  inferInstanceAs (Decidable (∀ c ∈ s.calls, _))

instance (w : String) (k : ℕ) (s : Traffic) (e : TrafficEvent) : Decidable (staged w k s e) :=
  match e with
  | .call r v => inferInstanceAs (Decidable (v = w →
      (∃ reg ∈ s.registries[r]?, s.now < (reg.circuits v).downUntil) ∨ s.Only w r ∨
        s.underWay w < k))
  | .reload workers _ => inferInstanceAs (Decidable (WorkerRegistry.capacity workers w = k))
  | .tick _ | .resume _ | .respond _ _ | .cancel _ | .throwCancelled _ => isTrue trivial

/-- A call after a reload that found no call under way. -/
theorem inFlight_le_slots_reload : ∃ s : Traffic, s.registries.length = 2 ∧ s.posts.length = 2 ∧
    s.inFlight "w" ≤ 1 := by
  obtain ⟨s, hs, hp⟩ := Runs.Machine.exists_reachable_of_run Sample.traffic (staged "w" 1)
    [.call 0 "w", .respond 0 (.ok (.obj [])), .reload Sample.workers Sample.breaker,
      .call 1 "w"]
    (fun s => decide (s.registries.length = 2) && decide (s.posts.length = 2)) (by decide)
  rw [Bool.and_eq_true, decide_eq_true_iff, decide_eq_true_iff] at hp
  exact ⟨s, hp.1, hp.2, inFlight_le_slots rfl hs⟩

def keepsSlots (workerId : String) (m : ℕ) : Traffic → TrafficEvent → Prop
  | _, .reload workers _ => WorkerRegistry.capacity workers workerId = m
  | _, _ => True

instance (w : String) (k : ℕ) (s : Traffic) (e : TrafficEvent) : Decidable (keepsSlots w k s e) :=
  match e with
  | .reload workers _ => inferInstanceAs (Decidable (WorkerRegistry.capacity workers w = k))
  | .tick _ | .call _ _ | .resume _ | .respond _ _ | .cancel _ | .throwCancelled _ => isTrue trivial

/-- One POST on each side of a reload. -/
theorem inFlight_exceeds_slots : ∃ s : Traffic, Sample.traffic.Reachable (keepsSlots "w" 1) s ∧
    ¬ s.inFlight "w" ≤ 1 := by
  obtain ⟨s, hs, hp⟩ := Runs.Machine.exists_reachable_of_run Sample.traffic (keepsSlots "w" 1)
    [.call 0 "w", .reload Sample.workers Sample.breaker, .call 1 "w"]
    (fun s => decide (s.inFlight "w" = 2)) (by decide)
  rw [decide_eq_true_iff] at hp
  exact ⟨s, hs, by omega⟩

end Traffic

end WorkerBridge
