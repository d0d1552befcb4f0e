import Mathlib.Algebra.Order.Ring.Rat
import WorkerBridge.Registry

namespace WorkerBridge

namespace WorkerRegistry

/-- `record_failure`, with both of its readings of the clock. -/
def recordFailureRead (reg : WorkerRegistry) (first second : ℚ) (metrics : MetricsRegistry)
    (workerId : String) : WorkerRegistry × MetricsRegistry :=
  let circuit := reg.circuits workerId
  let failures := circuit.failures + 1
  let metrics := metrics.incWorkerFailure workerId
  if reg.breaker.failureThreshold ≤ failures then
    let wasClosed := decide (circuit.downUntil ≤ first)
    ({ reg with
        circuits := Function.update reg.circuits workerId
          ⟨failures, second + reg.breaker.recoverySeconds⟩ },
      if wasClosed then metrics.incCircuitOpen workerId else metrics)
  else
    ({ reg with circuits := Function.update reg.circuits workerId ⟨failures, circuit.downUntil⟩ },
      metrics)

theorem recordFailure_eq_read (reg : WorkerRegistry) (now : ℚ) (metrics : MetricsRegistry)
    (workerId : String) :
    reg.recordFailure now metrics workerId = reg.recordFailureRead now now metrics workerId := by
  unfold recordFailure recordFailureRead
  simp only [decide_eq_true_eq]

end WorkerRegistry

/-- What is recorded of one worker.  A failure comes with the two readings it
makes of the clock. -/
inductive Recorded
  | success
  | failure (first second : ℚ)

/-- The registry and the counters after a history, the latest record first. -/
def WorkerRegistry.recorded (reg : WorkerRegistry) (metrics : MetricsRegistry)
    (workerId : String) : List Recorded → WorkerRegistry × MetricsRegistry
  | [] => (reg, metrics)
  | .success :: history =>
    let (reg, metrics) := reg.recorded metrics workerId history
    (reg.recordSuccess workerId, metrics)
  | .failure first second :: history =>
    let (reg, metrics) := reg.recorded metrics workerId history
    reg.recordFailureRead first second metrics workerId

namespace Breaker

def readings : List Recorded → List ℚ
  | [] => []
  | .success :: history => readings history
  | .failure first second :: history => second :: first :: readings history

/-- The clock counts from zero up, and has come to `now`. -/
def Timed (history : List Recorded) (now : ℚ) : Prop :=
  (now :: (readings history ++ [0])).Pairwise fun later earlier => earlier ≤ later

instance (history : List Recorded) (now : ℚ) : Decidable (Timed history now) :=
  inferInstanceAs (Decidable (List.Pairwise _ _))

/-- The failures since the last success, or the start. -/
def failuresSince : List Recorded → ℕ
  | [] => 0
  | .success :: _ => 0
  | .failure _ _ :: history => failuresSince history + 1

def lastFailure : List Recorded → Option ℚ
  | [] => none
  | .success :: history => lastFailure history
  | .failure _ second :: _ => some second

/-- The circuit is open at `t`. -/
def OpenAt (breaker : CircuitBreakerConfig) (history : List Recorded) (t : ℚ) : Prop :=
  breaker.failureThreshold ≤ failuresSince history ∧
    ∃ last ∈ lastFailure history, t < last + breaker.recoverySeconds

instance (breaker : CircuitBreakerConfig) (history : List Recorded) (t : ℚ) :
    Decidable (OpenAt breaker history t) :=
  inferInstanceAs (Decidable (_ ∧ ∃ last ∈ lastFailure history, _))

/-- The failures that reached the threshold while the circuit was not open. -/
def openings (breaker : CircuitBreakerConfig) : List Recorded → ℕ
  | [] => 0
  | .success :: history => openings breaker history
  | .failure first _ :: history => openings breaker history +
      if breaker.failureThreshold ≤ failuresSince history + 1 ∧ ¬ OpenAt breaker history first then 1
      else 0

def circuitOf (breaker : CircuitBreakerConfig) (history : List Recorded) : CircuitState where
  failures := failuresSince history
  downUntil :=
    if breaker.failureThreshold ≤ failuresSince history then
      ((lastFailure history).map (· + breaker.recoverySeconds)).getD 0
    else 0

variable {breaker : CircuitBreakerConfig} {history : List Recorded} {t now : ℚ}

theorem nonneg_of_timed (h : Timed history now) : 0 ≤ now :=
  (List.pairwise_cons.mp h).1 0 (List.mem_append_right _ List.mem_cons_self)

theorem timed_of_failure {first second : ℚ} (h : Timed (.failure first second :: history) now) :
    Timed history first :=
  (List.pairwise_cons.mp (List.pairwise_cons.mp h).2).2

theorem timed_of_success (h : Timed (.success :: history) now) : Timed history now := h

theorem openAt_iff (ht : 0 ≤ t) : OpenAt breaker history t ↔
    t < (circuitOf breaker history).downUntil := by
  unfold OpenAt circuitOf
  split
  · next hreached =>
    rw [and_iff_right hreached]
    cases lastFailure history with
    | none => simp [ht]
    | some last => simp
  · next hbelow =>
    refine iff_of_false (fun h => hbelow h.1) ?_
    exact not_lt.mpr ht

theorem circuitOf_success : circuitOf breaker (.success :: history) = .new := by
  have hpos := breaker.failureThreshold_pos
  have hbelow : ¬ breaker.failureThreshold ≤ failuresSince (.success :: history) := by
    rw [show failuresSince (.success :: history) = 0 from rfl]
    omega
  unfold circuitOf
  rw [if_neg hbelow]
  rfl

theorem circuitOf_failure (first second : ℚ) :
    circuitOf breaker (.failure first second :: history) =
      if breaker.failureThreshold ≤ failuresSince history + 1 then
        ⟨failuresSince history + 1, second + breaker.recoverySeconds⟩
      else ⟨failuresSince history + 1, (circuitOf breaker history).downUntil⟩ := by
  unfold circuitOf
  rw [show failuresSince (.failure first second :: history) = failuresSince history + 1 from rfl]
  split
  · rfl
  · next hbelow => rw [if_neg (show ¬ breaker.failureThreshold ≤ failuresSince history by omega)]

variable {reg : WorkerRegistry} {workerId : String}

theorem recorded_breaker (reg : WorkerRegistry) (metrics : MetricsRegistry) (workerId : String)
    (history : List Recorded) : (reg.recorded metrics workerId history).1.breaker = reg.breaker := by
  induction history with
  | nil => rfl
  | cons record history ih =>
    cases record with
    | success => exact ih
    | failure first second =>
      unfold WorkerRegistry.recorded WorkerRegistry.recordFailureRead
      simp only
      split
      · exact ih
      · exact ih

theorem recorded_circuit (hnew : reg.circuits workerId = .new) (metrics : MetricsRegistry)
    (history : List Recorded) : (reg.recorded metrics workerId history).1.circuits workerId =
      circuitOf reg.breaker history := by
  induction history with
  | nil =>
    refine hnew.trans ?_
    unfold circuitOf
    split <;> rfl
  | cons record history ih =>
    cases record with
    | success =>
      rw [circuitOf_success]
      exact Function.update_self _ _ _
    | failure first second =>
      rw [circuitOf_failure]
      unfold WorkerRegistry.recorded WorkerRegistry.recordFailureRead
      simp only [recorded_breaker, ih]
      rw [show (circuitOf reg.breaker history).failures = failuresSince history from rfl]
      split
      · exact Function.update_self _ _ _
      · exact Function.update_self _ _ _

theorem recorded_circuitOpen (hnew : reg.circuits workerId = .new) (metrics : MetricsRegistry)
    (h : Timed history now) : (reg.recorded metrics workerId history).2.circuitOpen workerId =
      metrics.circuitOpen workerId + openings reg.breaker history := by
  induction history generalizing now with
  | nil => rfl
  | cons record history ih =>
    cases record with
    | success => exact ih (timed_of_success h)
    | failure first second =>
      have hfirst := timed_of_failure h
      -- The deadline is looked at before it is set again.
      have hclosed : (circuitOf reg.breaker history).downUntil ≤ first ↔
          ¬ OpenAt reg.breaker history first := by
        rw [openAt_iff (nonneg_of_timed hfirst), not_lt]
      unfold WorkerRegistry.recorded WorkerRegistry.recordFailureRead openings
      simp only [recorded_breaker, recorded_circuit hnew, decide_eq_true_eq, hclosed]
      rw [show (circuitOf reg.breaker history).failures = failuresSince history from rfl]
      split
      · next hreached =>
        rw [← Nat.add_assoc, ← ih hfirst]
        split
        · next hshut =>
          rw [if_pos ⟨hreached, hshut⟩]
          exact (MetricsRegistry.bump_apply _ _ _).trans (by rw [if_pos rfl]; rfl)
        · next hopen =>
          rw [if_neg fun hboth => hopen hboth.2]
          rfl
      · next hbelow =>
        rw [if_neg fun hboth => hbelow hboth.1, Nat.add_zero]
        exact ih hfirst

theorem refuses_iff (hnew : reg.circuits workerId = .new) (metrics : MetricsRegistry)
    (h : Timed history now) :
    (reg.recorded metrics workerId history).1.assertAvailable now workerId =
      .error (.workerUnavailable workerId) ↔ OpenAt reg.breaker history now := by
  rw [openAt_iff (nonneg_of_timed h), WorkerRegistry.assertAvailable, recorded_circuit hnew]
  split
  · next hlt => exact iff_of_true rfl hlt
  · next hle => exact iff_of_false (fun he => by cases he) hle

end Breaker

/-- A circuit in closed form: the failures since the last success, when it
refuses, and how often it has opened.  After a cooldown one more failure opens it
again, and one success closes it. -/
theorem breaker_closed_form (reg : WorkerRegistry) (metrics : MetricsRegistry) (workerId : String)
    (hnew : reg.circuits workerId = .new) (history : List Recorded) (now : ℚ)
    (h : Breaker.Timed history now) :
    ((reg.recorded metrics workerId history).1.circuits workerId).failures =
      Breaker.failuresSince history ∧
    ((reg.recorded metrics workerId history).1.assertAvailable now workerId =
        .error (.workerUnavailable workerId) ↔
      reg.breaker.failureThreshold ≤ Breaker.failuresSince history ∧
        ∃ last ∈ Breaker.lastFailure history, now < last + reg.breaker.recoverySeconds) ∧
    (reg.recorded metrics workerId history).2.circuitOpen workerId =
      metrics.circuitOpen workerId + Breaker.openings reg.breaker history ∧
    (∀ first second t, Breaker.Timed (.failure first second :: history) t →
      reg.breaker.failureThreshold ≤ Breaker.failuresSince history →
      ¬ Breaker.OpenAt reg.breaker history first → t < second + reg.breaker.recoverySeconds →
      (reg.recorded metrics workerId (.failure first second :: history)).1.assertAvailable t
          workerId = .error (.workerUnavailable workerId) ∧
        (reg.recorded metrics workerId (.failure first second :: history)).2.circuitOpen workerId =
          (reg.recorded metrics workerId history).2.circuitOpen workerId + 1) ∧
    ∀ t, Breaker.Timed (.success :: history) t →
      (reg.recorded metrics workerId (.success :: history)).1.assertAvailable t workerId ≠
        .error (.workerUnavailable workerId) := by
  refine ⟨?_, Breaker.refuses_iff hnew metrics h, Breaker.recorded_circuitOpen hnew metrics h,
    ?_, ?_⟩
  · rw [Breaker.recorded_circuit hnew]
    rfl
  · intro first second t ht hreached hshut hlt
    refine ⟨?_, ?_⟩
    · rw [Breaker.refuses_iff hnew metrics ht]
      exact ⟨Nat.le_succ_of_le hreached, second, rfl, hlt⟩
    · rw [Breaker.recorded_circuitOpen hnew metrics ht, Breaker.recorded_circuitOpen hnew metrics h,
        Breaker.openings, if_pos ⟨Nat.le_succ_of_le hreached, hshut⟩, Nat.add_assoc]
  · intro t ht hrefused
    rw [Breaker.refuses_iff hnew metrics ht, Breaker.openAt_iff (Breaker.nonneg_of_timed ht),
      Breaker.circuitOf_success] at hrefused
    exact absurd (Breaker.nonneg_of_timed ht) (not_le.mpr hrefused)

/-- Two failures open a circuit with threshold 2 once, and a third that comes
while it is open puts the deadline off. -/
theorem breaker_closed_form_extended : ∃ reg : WorkerRegistry, ∃ history : List Recorded,
    history.length = 3 ∧
    ((reg.recorded .zero "w" history).1.circuits "w").failures = 3 ∧
    (reg.recorded .zero "w" history).2.circuitOpen "w" = 1 := by
  let breaker : CircuitBreakerConfig := ⟨2, 30, by decide, by decide⟩
  let history : List Recorded := [.failure 20 20, .failure 10 10, .failure 1 1]
  have hclosed := breaker_closed_form (.new [] breaker) .zero "w" rfl history 25 (by decide +kernel)
  exact ⟨_, history, rfl, hclosed.1, hclosed.2.2.1.trans (by decide +kernel)⟩

end WorkerBridge
