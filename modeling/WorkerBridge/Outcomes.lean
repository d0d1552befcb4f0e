import WorkerBridge.Bridge
import WorkerBridge.Traffic
import Mathlib.Tactic.Linarith

namespace WorkerBridge

/-- A response, with what `response.json()` makes of its body. -/
structure HttpResponse where
  statusCode : ℕ
  json : Except PyExc Json

/-- What `client.post` gives. -/
inductive Exchange
  | raised (exc : PyExc)
  | response (response : HttpResponse)

namespace Exchange

/-- `raise_for_status` and `response.json()`.  `statusError` is the exception of the first. -/
def data (statusError : HttpResponse → PyExc) : Exchange → Except PyExc Json
  | raised exc => .error exc
  | response r => if 200 ≤ r.statusCode ∧ r.statusCode ≤ 299 then r.json else .error (statusError r)

/-- A response that is a success for the client, with a JSON body that is no object. -/
def misread : Exchange → Bool
  | raised _ => false
  | response ⟨_, .ok (.obj _)⟩ => false
  | response ⟨statusCode, .ok _⟩ => decide (200 ≤ statusCode ∧ statusCode ≤ 299)
  | response ⟨_, .error _⟩ => false

end Exchange

inductive CircuitRecord
  | success
  | failure
  deriving DecidableEq

/-- What the block records, in this order, and what the call comes to. -/
def tryBlock : Except PyExc Json → List CircuitRecord × Except PyExc Json
  | .error exc => ([.failure], .error exc)
  | .ok data =>
    match normalizeResponse data with
    | .ok result => ([.success], .ok result)
    | .error exc => ([.success, .failure], .error exc)

namespace WorkerRegistry

def record (now : ℚ) (workerId : String) (state : WorkerRegistry × MetricsRegistry) :
    CircuitRecord → WorkerRegistry × MetricsRegistry
  | .success => (state.1.recordSuccess workerId, state.2)
  | .failure => state.1.recordFailure now state.2 workerId

theorem receive_eq_record (reg : WorkerRegistry) (now : ℚ) (metrics : MetricsRegistry)
    (workerId : String) (response : Except PyExc Json) :
    reg.receive now metrics workerId response =
      ((tryBlock response).1.foldl (record now workerId) (reg, metrics), (tryBlock response).2) := by
  unfold receive tryBlock
  cases response with
  | error exc => rfl
  | ok data =>
    cases hdata : normalizeResponse data with
    | ok result => simp only [hdata, List.foldl_cons, List.foldl_nil, record]
    | error exc => simp only [hdata, List.foldl_cons, List.foldl_nil, record]

end WorkerRegistry

/-- Exactly one of the two is recorded, and success exactly for a call that returns. -/
structure OneOutcome (block : List CircuitRecord × Except PyExc Json) : Prop where
  one : block.1.length = 1
  success : CircuitRecord.success ∈ block.1 ↔ ∃ result, block.2 = .ok result

theorem normalizeResponse_eq_error {data : Json} :
    (∃ exc, normalizeResponse data = .error exc) ↔ ∀ fields, data ≠ .obj fields := by
  cases data with
  | obj fields =>
    have hok : ∃ result, normalizeResponse (.obj fields) = .ok result := by
      unfold normalizeResponse
      simp only
      split
      · exact ⟨_, rfl⟩
      · exact ⟨_, rfl⟩
      · next h => exact absurd rfl (h fields)
    obtain ⟨result, hok⟩ := hok
    simp [hok]
  | null | bool | num | str | arr =>
    simp [normalizeResponse, Json.item]

theorem oneOutcome_iff {response : Except PyExc Json} : OneOutcome (tryBlock response) ↔
    ∀ data, response = .ok data → ∃ fields, data = .obj fields := by
  cases response with
  | error exc =>
    constructor
    · nofun
    · exact fun _ => ⟨rfl, by simp [tryBlock]⟩
  | ok data =>
    have herror : (∃ exc, normalizeResponse data = .error exc) ↔ ∀ fields, data ≠ .obj fields :=
      normalizeResponse_eq_error
    cases hdata : normalizeResponse data with
    | ok result =>
      rw [hdata] at herror
      have hobj : ∃ fields, data = .obj fields := by simpa using herror
      constructor
      · rintro - data' h
        cases h
        exact hobj
      · exact fun _ => ⟨by simp [tryBlock, hdata], by simp [tryBlock, hdata]⟩
    | error exc =>
      constructor
      · rintro ⟨hone, -⟩
        simp [tryBlock, hdata] at hone
      · intro h
        obtain ⟨fields, rfl⟩ := h data rfl
        exact absurd rfl (herror.mp ⟨exc, hdata⟩ fields)

theorem Exchange.misread_iff {statusError : HttpResponse → PyExc} {exchange : Exchange} :
    exchange.misread = false ↔
      ∀ data, exchange.data statusError = .ok data → ∃ fields, data = .obj fields := by
  rcases exchange with exc | ⟨statusCode, json⟩
  · simp [misread, data]
  · cases json with
    | error exc =>
      simp only [misread, data, true_iff]
      split <;> nofun
    | ok value =>
      by_cases hstatus : 200 ≤ statusCode ∧ statusCode ≤ 299
      · cases value <;> simp [misread, data, hstatus]
      · cases value <;> simp [misread, data, hstatus]

namespace Exchange

variable (statusError : HttpResponse → PyExc) (exchange : Exchange)

def raises : Prop := ∃ exc, (tryBlock (exchange.data statusError)).2 = .error exc

end Exchange

namespace Traffic

variable {s s' : Traffic} {e : TrafficEvent} {r : ℕ} {workerId : String}

def elsewhere (r : ℕ) (workerId : String) (s : Traffic) (e : TrafficEvent) : Prop :=
  ∀ (j : ℕ) (response : Except PyExc Json), e = .respond j response →
    ∀ call ∈ s.calls[j]?, ¬ (call.registry = r ∧ call.workerId = workerId)

end Traffic

/-- Calls to one worker, each made after the one before it was answered, with their exchanges.
Between the start and the answer of a call, and between the calls, anything goes on but the answer
to another call to this worker. -/
inductive InTurn (M : Runs.Machine Traffic TrafficEvent) (statusError : HttpResponse → PyExc)
    (r : ℕ) (workerId : String) : Traffic → List Exchange → Traffic → Prop
  | nil (s : Traffic) : InTurn M statusError r workerId s [] s
  | cons {s s₁ s₂ s₃ s₄ s' : Traffic} {exchange : Exchange} {exchanges : List Exchange}
      (before : M.Leads (Traffic.elsewhere r workerId) s s₁)
      (made : M.step s₁ (.call r workerId) = some s₂)
      (during : M.Leads (Traffic.elsewhere r workerId) s₂ s₃)
      (answered : M.step s₃ (.respond s₁.calls.length (exchange.data statusError)) = some s₄)
      (rest : InTurn M statusError r workerId s₄ exchanges s') :
      InTurn M statusError r workerId s (exchange :: exchanges) s'

namespace Traffic

variable {s s' : Traffic} {e : TrafficEvent} {r : ℕ} {workerId : String}

def Open (s : Traffic) (r : ℕ) (workerId : String) : Prop :=
  ∃ reg, s.registries[r]? = some reg ∧ s.now < (WorkerRegistry.circuits reg workerId).downUntil

theorem now_mono (h : s.Moves e s') : s.now ≤ s'.now := by
  cases h with
  | tick hseconds => exact le_add_of_nonneg_right hseconds
  | @cancel j call reg => exact (cancel_frame s j call reg).2.1.ge
  | refused | queued | entered | resumed | answered | abandoned | aborted | reload => exact le_rfl

/-- A registry keeps its breaker and, for the worker, its circuit, while time goes by. -/
structure Keeps (r : ℕ) (workerId : String) (s s' : Traffic) : Prop where
  now : s.now ≤ s'.now
  registry : ∀ reg : WorkerRegistry, s.registries[r]? = some reg → ∃ reg' : WorkerRegistry,
    s'.registries[r]? = some reg' ∧ reg'.breaker = reg.breaker ∧
      reg'.circuits workerId = reg.circuits workerId

theorem Keeps.refl (s : Traffic) : Keeps r workerId s s :=
  ⟨le_rfl, fun reg hreg => ⟨reg, hreg, rfl, rfl⟩⟩

theorem Keeps.trans {s'' : Traffic} (h : Keeps r workerId s s') (h' : Keeps r workerId s' s'') :
    Keeps r workerId s s'' := by
  refine ⟨h.now.trans h'.now, ?_⟩
  intro reg hreg
  obtain ⟨reg', hreg', hbreaker, hcircuit⟩ := h.registry reg hreg
  obtain ⟨reg'', hreg'', hbreaker', hcircuit'⟩ := h'.registry reg' hreg'
  exact ⟨reg'', hreg'', hbreaker'.trans hbreaker, hcircuit'.trans hcircuit⟩

theorem Keeps.of_set {r₁ : ℕ} {reg₁ reg₁' : WorkerRegistry} (hnow : s.now ≤ s'.now)
    (hreg₁ : s.registries[r₁]? = some reg₁) (hregs : s'.registries = s.registries.set r₁ reg₁')
    (hbreaker : reg₁'.breaker = reg₁.breaker)
    (hcircuit : r₁ = r → reg₁'.circuits workerId = reg₁.circuits workerId) :
    Keeps r workerId s s' := by
  refine ⟨hnow, ?_⟩
  intro reg hreg
  rw [hregs]
  by_cases hr : r₁ = r
  · subst hr
    cases hreg₁.symm.trans hreg
    exact ⟨reg₁', List.getElem?_set_self (List.getElem?_eq_some_iff.mp hreg).1, hbreaker,
      hcircuit rfl⟩
  · exact ⟨reg, (List.getElem?_set_ne hr).trans hreg, rfl, rfl⟩

theorem Moves.keeps (h : s.Moves e s') (hq : elsewhere r workerId s e) : Keeps r workerId s s' := by
  have hnow := now_mono h
  cases h with
  | tick | refused => exact ⟨hnow, fun reg hreg => ⟨reg, hreg, rfl, rfl⟩⟩
  | queued hreg => exact .of_set hnow hreg rfl rfl fun _ => rfl
  | entered hreg => exact .of_set hnow hreg rfl rfl fun _ => rfl
  | resumed _ hreg => exact .of_set hnow hreg rfl rfl fun _ => rfl
  | @answered j response call reg hcall hreg =>
    refine .of_set hnow hreg (respond_registries s j call reg response) rfl fun hr => ?_
    have hworker : workerId ≠ call.workerId := fun hw => hq j response rfl call hcall ⟨hr, hw.symm⟩
    exact Function.update_of_ne hworker _ _
  | @cancel j call reg _ hreg =>
    obtain ⟨semaphore, -, hregs⟩ := cancel_registries (j := j) hreg
    exact .of_set hnow hreg hregs rfl fun _ => rfl
  | abandoned _ hreg => exact .of_set hnow hreg rfl rfl fun _ => rfl
  | aborted _ hreg => exact .of_set hnow hreg rfl rfl fun _ => rfl
  | reload =>
    refine ⟨hnow, fun reg hreg => ⟨reg, ?_, rfl, rfl⟩⟩
    exact (List.getElem?_append_left (List.getElem?_eq_some_iff.mp hreg).1).trans hreg

variable {workers : List WorkerConfig} {breaker : CircuitBreakerConfig}

theorem keeps_of_leads (h : (machine workers breaker).Leads (elsewhere r workerId) s s') :
    Keeps r workerId s s' :=
  h.invariant (I := Keeps r workerId s) (.refl s) fun _ _ _ hq hk hs =>
    hk.trans ((step_moves hs).keeps hq)

/-- The call `j` is to the worker, and over if it was over when it came. -/
def Stays (r : ℕ) (workerId : String) (ended : Bool) (j : ℕ) (s : Traffic) : Prop :=
  ∃ call, s.calls[j]? = some call ∧ call.registry = r ∧ call.workerId = workerId ∧
    (ended = true → call.phase.isEnded = true)

theorem Moves.stays {ended : Bool} {j : ℕ} (hj : s.Stays r workerId ended j) (h : s.Moves e s') :
    s'.Stays r workerId ended j := by
  obtain ⟨call, hcall, hr, hw, hover⟩ := hj
  rcases h.calls with ⟨_, _, _, -, hcalls, -⟩ | ⟨k, d, phase, requested, hd, hcalls, hlive⟩ | hcalls
  · refine ⟨call, ?_, hr, hw, hover⟩
    rw [hcalls, List.getElem?_append_left (List.getElem?_eq_some_iff.mp hcall).1]
    exact hcall
  · by_cases hk : k = j
    · subst hk
      cases hcall.symm.trans hd
      refine ⟨{ call with phase := phase, cancelRequested := requested }, ?_, hr, hw, fun ho => ?_⟩
      · rw [hcalls]
        exact List.getElem?_set_self (List.getElem?_eq_some_iff.mp hcall).1
      · by_contra hne
        have := hlive (Bool.eq_false_iff.mpr hne)
        rw [hover ho] at this
        cases this
    · refine ⟨call, ?_, hr, hw, hover⟩
      rw [hcalls, List.getElem?_set_ne hk]
      exact hcall
  · exact ⟨call, hcalls ▸ hcall, hr, hw, hover⟩

theorem call_step {s₂ : Traffic} {reg : WorkerRegistry} (hreg : s.registries[r]? = some reg)
    (h : s.Moves (.call r workerId) s₂) : ∃ ended, s₂.Stays r workerId ended s.calls.length ∧
      (ended = false → (reg.circuits workerId).downUntil ≤ s.now) := by
  rcases h.calls with ⟨r', w, phase, he, hcalls, hphase⟩ | ⟨k, d, phase, requested, hd, hcalls, -⟩ |
    hcalls
  · cases he
    refine ⟨phase.isEnded, ⟨_, by rw [hcalls, List.getElem?_concat_length], rfl, rfl, id⟩, ?_⟩
    intro hlive
    rcases hphase with hended | ⟨reg', hreg', havail⟩
    · rw [hended] at hlive
      cases hlive
    · cases hreg.symm.trans hreg'
      exact havail
  · obtain ⟨c, hnew, -⟩ := h.called
    have := congrArg List.length (hnew.symm.trans hcalls)
    simp at this
  · obtain ⟨c, hnew, -⟩ := h.called
    have := congrArg List.length (hnew.symm.trans hcalls)
    simp at this

theorem respond_step {j : ℕ} {response : Except PyExc Json} (h : s.Moves (.respond j response) s') :
    s'.now = s.now ∧ ∃ call reg, s.calls[j]? = some call ∧ call.phase = .posting ∧
      s.registries[call.registry]? = some reg ∧
      s'.registries[call.registry]? = some (reg.answered s.now call.workerId response) := by
  cases h with
  | @answered _ _ call reg hcall hreg hph =>
    refine ⟨rfl, call, reg, hcall, hph, hreg, ?_⟩
    rw [respond_registries]
    exact List.getElem?_set_self (List.getElem?_eq_some_iff.mp hreg).1

theorem round_step {statusError : HttpResponse → PyExc} {exchange : Exchange} {reg : WorkerRegistry}
    {s₁ s₂ s₃ s₄ : Traffic} (hreg : s.registries[r]? = some reg)
    (before : (machine workers breaker).Leads (elsewhere r workerId) s s₁)
    (made : (machine workers breaker).step s₁ (.call r workerId) = some s₂)
    (during : (machine workers breaker).Leads (elsewhere r workerId) s₂ s₃)
    (answered : (machine workers breaker).step s₃
      (.respond s₁.calls.length (exchange.data statusError)) = some s₄) :
    s.now ≤ s₄.now ∧ (reg.circuits workerId).downUntil ≤ s₄.now ∧
      ∃ reg', s₄.registries[r]? = some reg' ∧ reg'.breaker = reg.breaker ∧
        reg'.circuits workerId = reg.received s₄.now workerId (exchange.data statusError) := by
  have hbefore := keeps_of_leads before
  have hmoves : s₁.Moves (.call r workerId) s₂ := step_moves made
  have hmade : Keeps r workerId s₁ s₂ := hmoves.keeps nofun
  have hduring := keeps_of_leads during
  obtain ⟨reg₁, hreg₁, hbreaker₁, hcircuit₁⟩ := hbefore.registry reg hreg
  obtain ⟨reg₃, hreg₃, hbreaker₃, hcircuit₃⟩ := (hmade.trans hduring).registry reg₁ hreg₁
  obtain ⟨ended, hstays, hadmitted⟩ := call_step hreg₁ hmoves
  obtain ⟨call, hcall, rfl, rfl, hover⟩ := during.invariant
    (I := fun s => s.Stays r workerId ended s₁.calls.length) hstays
    fun _ _ _ _ hi hs => (step_moves hs).stays hi
  obtain ⟨hnow₄, call', reg', hcall', hph, hreg', hreg₄⟩ := respond_step (s := s₃) (step_moves answered)
  cases hcall.symm.trans hcall'
  cases hreg₃.symm.trans hreg'
  have hlive : ended = false := by
    by_contra hne
    have := hover (Bool.eq_true_of_not_eq_false hne)
    rw [hph] at this
    cases this
  have hlater : s₁.now ≤ s₄.now := hnow₄ ▸ (hmade.trans hduring).now
  refine ⟨hbefore.now.trans hlater, ?_, _, hreg₄, hbreaker₃.trans hbreaker₁, ?_⟩
  · rw [← hcircuit₁]
    exact (hadmitted hlive).trans hlater
  · refine (Function.update_self ..).trans ?_
    unfold WorkerRegistry.received
    rw [hbreaker₃, hbreaker₁, hcircuit₃, hcircuit₁, hnow₄]

end Traffic

/-- The failures counted after one more call that raised. -/
def countFailure (failures : ℕ) (exchange : Exchange) : ℕ :=
  if exchange.misread then 1 else failures + 1

theorem foldl_countFailure_le (exchanges : List Exchange) (n : ℕ) :
    exchanges.foldl countFailure n ≤ n + exchanges.length := by
  induction exchanges generalizing n with
  | nil => exact le_rfl
  | cons exchange exchanges ih =>
    have hstep : countFailure n exchange ≤ n + 1 := by
      unfold countFailure
      split <;> omega
    have := ih (countFailure n exchange)
    simp only [List.foldl_cons, List.length_cons]
    omega

theorem foldl_countFailure_of_misread {exchanges : List Exchange}
    (h : ∃ exchange ∈ exchanges, exchange.misread = true) (n : ℕ) :
    exchanges.foldl countFailure n ≤ exchanges.length := by
  induction exchanges generalizing n with
  | nil => simp at h
  | cons exchange exchanges ih =>
    rw [List.foldl_cons, List.length_cons]
    by_cases hexchange : exchange.misread = true
    · rw [countFailure, if_pos hexchange]
      have := foldl_countFailure_le exchanges 1
      omega
    · have hrest : ∃ exchange ∈ exchanges, exchange.misread = true := by
        simpa [hexchange] using h
      have := ih hrest (countFailure n exchange)
      omega

theorem foldl_countFailure_eq {exchanges : List Exchange}
    (h : ∀ exchange ∈ exchanges, exchange.misread = false) (n : ℕ) :
    exchanges.foldl countFailure n = n + exchanges.length := by
  induction exchanges generalizing n with
  | nil => rfl
  | cons exchange exchanges ih =>
    have hexchange := h exchange List.mem_cons_self
    rw [List.foldl_cons, ih fun x hx => h x (List.mem_cons_of_mem _ hx)]
    simp only [countFailure, hexchange, Bool.false_eq_true, if_false, List.length_cons]
    omega

theorem length_le_foldl_countFailure {exchanges : List Exchange} (n : ℕ) :
    exchanges.length ≤ exchanges.foldl countFailure n ↔
      ∀ exchange ∈ exchanges.tail, exchange.misread = false := by
  -- The count starts again only after a call that was misread.
  cases exchanges with
  | nil => simp
  | cons exchange exchanges =>
    have hpos : 1 ≤ countFailure n exchange := by
      unfold countFailure
      split <;> omega
    rw [List.foldl_cons, List.length_cons, List.tail_cons]
    constructor
    · intro hle
      by_contra hmis
      push Not at hmis
      have := foldl_countFailure_of_misread (by simpa using hmis) (countFailure n exchange)
      omega
    · intro hall
      rw [foldl_countFailure_eq hall]
      omega

theorem received_of_raises {statusError : HttpResponse → PyExc} {reg : WorkerRegistry} {now : ℚ}
    {workerId : String} {exchange : Exchange} (hraises : exchange.raises statusError)
    (hadmitted : (reg.circuits workerId).downUntil ≤ now) (hnow : 0 ≤ now) :
    (reg.received now workerId (exchange.data statusError)).failures =
        countFailure (reg.circuits workerId).failures exchange ∧
      (now < (reg.received now workerId (exchange.data statusError)).downUntil ↔
        reg.breaker.failureThreshold ≤ countFailure (reg.circuits workerId).failures exchange) := by
  have hopen (circuit : CircuitState) (h : circuit.downUntil ≤ now) :
      now < (WorkerRegistry.failed reg.breaker now circuit).downUntil ↔
        reg.breaker.failureThreshold ≤ circuit.failures + 1 := by
    have hrecovery := reg.breaker.recoverySeconds_pos
    unfold WorkerRegistry.failed
    simp only
    split
    · next hle => exact ⟨fun _ => hle, fun _ => by linarith⟩
    · next hlt => exact ⟨fun h' => absurd h' (not_lt.mpr h), fun h' => absurd h' hlt⟩
  obtain ⟨exc, hexc⟩ := hraises
  have hmisread : exchange.misread = false ↔
      ∀ data, exchange.data statusError = .ok data → ∃ fields, data = .obj fields :=
    Exchange.misread_iff
  unfold WorkerRegistry.received countFailure
  cases hdata : exchange.data statusError with
  | error exc' =>
    have hfalse : exchange.misread = false := by
      rw [hmisread, hdata]
      nofun
    simp only [hfalse, Bool.false_eq_true, if_false]
    exact ⟨rfl, hopen _ hadmitted⟩
  | ok data =>
    cases hnorm : normalizeResponse data with
    | ok result => simp [tryBlock, hdata, hnorm] at hexc
    | error exc' =>
      have htrue : exchange.misread = true := by
        rw [← Bool.not_eq_false, hmisread, hdata]
        intro h
        obtain ⟨fields, rfl⟩ := h data rfl
        exact normalizeResponse_eq_error.mp ⟨exc', hnorm⟩ fields rfl
      simp only [hnorm, htrue, if_true]
      exact ⟨rfl, hopen .new hnow⟩

namespace Traffic

variable {workers : List WorkerConfig} {breaker : CircuitBreakerConfig}
  {statusError : HttpResponse → PyExc} {s s' : Traffic} {r : ℕ} {workerId : String}
  {reg : WorkerRegistry} {exchanges : List Exchange}

theorem inTurn_circuit (hnow : 0 ≤ s.now) (hreg : s.registries[r]? = some reg)
    (hraises : ∀ exchange ∈ exchanges, exchange.raises statusError)
    (h : InTurn (machine workers breaker) statusError r workerId s exchanges s') :
    ∃ reg', s'.registries[r]? = some reg' ∧ (exchanges ≠ [] →
      (s'.now < (reg'.circuits workerId).downUntil ↔
        reg.breaker.failureThreshold ≤
          exchanges.foldl countFailure (reg.circuits workerId).failures)) := by
  induction h generalizing reg with
  | nil => exact ⟨reg, hreg, fun h => absurd rfl h⟩
  | @cons s s₁ s₂ s₃ s₄ s' exchange exchanges before made during answered rest ih =>
    obtain ⟨hmono, hadmitted, reg₁, hreg₁, hbreaker, hcircuit⟩ :=
      round_step hreg before made during answered
    have hnow₁ : 0 ≤ s₄.now := hnow.trans hmono
    obtain ⟨hfailures, hopen⟩ :=
      received_of_raises (hraises exchange List.mem_cons_self) hadmitted hnow₁
    obtain ⟨reg', hreg', hlast⟩ := ih hnow₁ hreg₁
      fun x hx => hraises x (List.mem_cons_of_mem _ hx)
    refine ⟨reg', hreg', fun _ => ?_⟩
    rw [List.foldl_cons, ← hfailures, ← hcircuit, ← hbreaker]
    by_cases hne : exchanges = []
    · subst hne
      cases rest
      cases hreg₁.symm.trans hreg'
      rw [List.foldl_nil, hcircuit, hbreaker, hfailures]
      exact hopen
    · exact hlast hne

theorem open_iff_of_inTurn (hnow : 0 ≤ s.now) (hreg : s.registries[r]? = some reg)
    (hlen : exchanges.length = reg.breaker.failureThreshold)
    (hraises : ∀ exchange ∈ exchanges, exchange.raises statusError)
    (h : InTurn (machine workers breaker) statusError r workerId s exchanges s') :
    s'.Open r workerId ↔ ∀ exchange ∈ exchanges.tail, exchange.misread = false := by
  have hne : exchanges ≠ [] := by
    have := reg.breaker.failureThreshold_pos
    rintro rfl
    simp at hlen
    omega
  obtain ⟨reg', hreg', hopen⟩ := inTurn_circuit hnow hreg hraises h
  rw [← length_le_foldl_countFailure (reg.circuits workerId).failures, hlen, ← hopen hne]
  constructor
  · rintro ⟨reg'', hreg'', hdown⟩
    cases hreg'.symm.trans hreg''
    exact hdown
  · exact fun hdown => ⟨reg', hreg', hdown⟩

theorem now_nonneg (h : (machine workers breaker).Reachable Runs.anyStep s) : 0 ≤ s.now :=
  h.invariant (I := fun s => 0 ≤ s.now) le_rfl fun _ _ _ _ hs hstep =>
    hs.trans (now_mono (step_moves hstep))

def straight (statusError : HttpResponse → PyExc) (r : ℕ) (workerId : String) :
    Traffic → List Exchange → Option Traffic
  | s, [] => some s
  | s, exchange :: exchanges => (s.step (.call r workerId)).bind fun s₂ =>
      (s₂.step (.respond s.calls.length (exchange.data statusError))).bind fun s₄ =>
        straight statusError r workerId s₄ exchanges

theorem inTurn_of_straight (h : straight statusError r workerId s exchanges = some s') :
    InTurn (machine workers breaker) statusError r workerId s exchanges s' := by
  induction exchanges generalizing s with
  | nil =>
    cases h
    exact .nil _
  | cons exchange exchanges ih =>
    obtain ⟨s₂, made, h⟩ := Option.bind_eq_some_iff.mp h
    obtain ⟨s₄, answered, hrest⟩ := Option.bind_eq_some_iff.mp h
    exact .cons Relation.ReflTransGen.refl made Relation.ReflTransGen.refl answered (ih hrest)

end Traffic

/-- A call records one outcome, and as many calls in a row that raise as the threshold open the
circuit, exactly as long as no success with a body that is no object is misread.  Only the first
of the calls may be. -/
theorem outcomes_iff (statusError : HttpResponse → PyExc) :
    (∀ exchange : Exchange,
      OneOutcome (tryBlock (exchange.data statusError)) ↔ exchange.misread = false) ∧
    ∀ (workers : List WorkerConfig) (breaker : CircuitBreakerConfig) (s s' : Traffic) (r : ℕ)
      (workerId : String) (reg : WorkerRegistry) (exchanges : List Exchange),
      (Traffic.machine workers breaker).Reachable Runs.anyStep s →
      s.registries[r]? = some reg → exchanges.length = reg.breaker.failureThreshold →
      (∀ exchange ∈ exchanges, exchange.raises statusError) →
      InTurn (Traffic.machine workers breaker) statusError r workerId s exchanges s' →
      (s'.Open r workerId ↔ ∀ exchange ∈ exchanges.tail, exchange.misread = false) := by
  refine ⟨fun exchange => ?_, ?_⟩
  · rw [oneOutcome_iff]
    exact Exchange.misread_iff.symm
  · intro workers breaker s s' r workerId reg exchanges hs hreg hlen hraises hturn
    exact Traffic.open_iff_of_inTurn (Traffic.now_nonneg hs) hreg hlen hraises hturn

namespace Sample

theorem twoFailures : 1 ≤ 2 := by decide

theorem halfMinute : (0 : ℚ) < 30 := by decide

def patient : CircuitBreakerConfig where
  failureThreshold := 2
  recoverySeconds := 30
  failureThreshold_pos := twoFailures
  recoverySeconds_pos := halfMinute

def statusError (response : HttpResponse) : PyExc :=
  .other "HTTPStatusError".toList (Nat.repr response.statusCode).toList

def emptyList : Exchange := .response ⟨200, .ok (.arr [])⟩

theorem emptyList_raises : ∀ exchange ∈ [emptyList, emptyList], exchange.raises statusError := by
  have hlist : ∀ fields, Json.arr [] ≠ .obj fields := fun fields h => by cases h
  obtain ⟨exc, hexc⟩ := normalizeResponse_eq_error.mpr hlist
  have hraises : emptyList.raises statusError := by
    refine ⟨exc, ?_⟩
    rw [show emptyList.data statusError = .ok (.arr []) from rfl]
    simp only [tryBlock, hexc]
  simpa using hraises

theorem exists_emptyLists : ∃ s', InTurn (Traffic.machine workers patient) statusError 0 "w"
    (Traffic.machine workers patient).start [emptyList, emptyList] s' := by
  have hsome : (Traffic.straight statusError 0 "w" (Traffic.machine workers patient).start
      [emptyList, emptyList]).isSome = true := by decide +kernel
  obtain ⟨s', hs'⟩ := Option.isSome_iff_exists.mp hsome
  exact ⟨s', Traffic.inTurn_of_straight hs'⟩

end Sample

theorem outcomes_emptyLists : ∃ s', InTurn (Traffic.machine Sample.workers Sample.patient)
      Sample.statusError 0 "w" (Traffic.machine Sample.workers Sample.patient).start
      [Sample.emptyList, Sample.emptyList] s' ∧
    (s'.Open 0 "w" ↔ ∀ exchange ∈ [Sample.emptyList], exchange.misread = false) := by
  obtain ⟨s', hs'⟩ := Sample.exists_emptyLists
  refine ⟨s', hs', ?_⟩
  exact (outcomes_iff Sample.statusError).2 Sample.workers Sample.patient _ s' 0 "w"
    (.new Sample.workers Sample.patient) _ .start rfl rfl Sample.emptyList_raises hs'

/-- A worker that answers with an empty list is recorded twice, and its circuit stays closed after
two calls that raised. -/
theorem emptyLists_leave_closed :
    ¬ OneOutcome (tryBlock (Sample.emptyList.data Sample.statusError)) ∧
      ∃ s', InTurn (Traffic.machine Sample.workers Sample.patient) Sample.statusError 0 "w"
          (Traffic.machine Sample.workers Sample.patient).start
          [Sample.emptyList, Sample.emptyList] s' ∧
        (∀ exchange ∈ [Sample.emptyList, Sample.emptyList],
          exchange.raises Sample.statusError) ∧ ¬ s'.Open 0 "w" := by
  refine ⟨?_, ?_⟩
  · rw [oneOutcome_iff, ← Exchange.misread_iff]
    decide
  · obtain ⟨s', hs'⟩ := Sample.exists_emptyLists
    refine ⟨s', hs', Sample.emptyList_raises, ?_⟩
    have hreg : (Traffic.machine Sample.workers Sample.patient).start.registries[0]? =
        some (.new Sample.workers Sample.patient) := rfl
    rw [Traffic.open_iff_of_inTurn le_rfl hreg rfl Sample.emptyList_raises hs']
    decide

end WorkerBridge
