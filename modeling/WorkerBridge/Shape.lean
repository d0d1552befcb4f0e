import WorkerBridge.Effects

namespace WorkerBridge

open TaskState

namespace TaskRecord

/-- Neither an outcome nor the time of one. -/
structure Open (r : TaskRecord) : Prop where
  completedAt : r.completedAt = none
  result : r.result = none
  error : r.error = none

structure Refused (r : TaskRecord) : Prop where
  completedAt : r.completedAt ≠ none
  result : r.result = none
  error : ∃ message, r.error = some message ∧ message ≠ []

def Shape (r : TaskRecord) : Prop :=
  match r.state with
  | pending => r.Open ∧ r.attemptCount = 0 ∧ r.dispatchAttemptId = none ∧ r.startedAt = none
  | running => r.Open ∧ 1 ≤ r.attemptCount ∧ r.dispatchAttemptId ≠ none ∧ r.startedAt ≠ none
  | recovering => r.Open ∧ 1 ≤ r.attemptCount ∧ r.dispatchAttemptId = none ∧ r.startedAt ≠ none
  | completed => r.result ≠ none ∧ r.startedAt ≠ none ∧ r.completedAt ≠ none ∧ r.error = none
  | failed => r.Refused ∧ r.startedAt ≠ none
  | timedOut => r.Refused ∧ r.startedAt ≠ none
  | cancelled => r.Refused
  | retrying => False

variable {r : TaskRecord}

theorem Shape.open (h : r.Shape) (hlive : r.state ∉ terminalStates) : r.Open := by
  unfold Shape at h
  cases hs : r.state <;> simp only [hs] at h hlive <;>
    first | exact h.1 | exact absurd (by decide) hlive

theorem Shape.completedAt (h : r.Shape) : r.completedAt ≠ none ↔ r.state ∈ terminalStates := by
  constructor
  · intro hc
    by_contra hlive
    exact hc (h.open hlive).completedAt
  · intro hterm
    unfold Shape at h
    cases hs : r.state <;> simp only [hs] at h hterm
    case completed => exact h.2.2.1
    case failed => exact h.1.completedAt
    case timedOut => exact h.1.completedAt
    case cancelled => exact h.completedAt
    all_goals exact absurd hterm (by decide)

theorem Shape.result_or_error (h : r.Shape) : r.result = none ∨ r.error = none := by
  by_cases hlive : r.state ∈ terminalStates
  · unfold Shape at h
    cases hs : r.state <;> simp only [hs] at h hlive
    case completed => exact Or.inr h.2.2.2
    case failed => exact Or.inl h.1.result
    case timedOut => exact Or.inl h.1.result
    case cancelled => exact Or.inl h.result
    all_goals exact absurd hlive (by decide)
  · exact Or.inl (h.open hlive).result

theorem Shape.begun {attemptId now : String} (h : r.Shape) (hq : r.state ∈ queuedStates) :
    (r.begun attemptId now).Shape := by
  have ho := h.open (Process.not_terminal_of_queued hq)
  have hstarted : (r.begun attemptId now).startedAt ≠ none := by
    show (if running = running ∧ r.startedAt = none then some now else r.startedAt) ≠ none
    split
    · exact Option.some_ne_none _
    · next hn => exact fun he => hn ⟨rfl, he⟩
  refine ⟨⟨?_, ?_, ?_⟩, Nat.le_add_left _ _, Option.some_ne_none _, hstarted⟩
  · exact ho.completedAt
  · exact ho.result
  · exact ho.error

theorem Shape.settled {named : Prop} {target : TaskState} {now : String} {error : Option Text}
    {result : Option Json} (hn : named) (h : r.Shape) (hs : r.state = running)
    (hout : Outcome named target error result) : (r.moveTo target now error result).Shape := by
  unfold Shape at h
  simp only [hs] at h
  obtain ⟨ho, -, -, hstarted⟩ := h
  cases hout with
  | returned result =>
    refine ⟨Option.some_ne_none _, ?_, Option.some_ne_none _, ho.error⟩
    exact hstarted
  | @raised target message ht hne =>
    -- The two targets of an exception are set in the same way.
    have hrefused : ∀ s ∈ [failed, timedOut], (r.moveTo s now (some message) none).Refused ∧
        (r.moveTo s now (some message) none).startedAt ≠ none := by
      intro s hmem
      have hterm : s ∈ terminalStates ∧ s ≠ running := by
        revert hmem
        cases s <;> decide
      refine ⟨⟨?_, ho.result, message, rfl, hne hn⟩, ?_⟩
      · show (if s ∈ terminalStates then some now else r.completedAt) ≠ none
        rw [if_pos hterm.1]
        exact Option.some_ne_none _
      · show (if s = running ∧ r.startedAt = none then some now else r.startedAt) ≠ none
        rw [if_neg fun hr => hterm.2 hr.1]
        exact hstarted
    simp only [List.mem_cons, List.not_mem_nil, or_false] at ht
    rcases ht with rfl | rfl
    · exact hrefused failed (by decide)
    · exact hrefused timedOut (by decide)

theorem Shape.cancelled {now : String} {message : Text} (h : r.Shape)
    (hlive : r.state ∉ terminalStates) (hne : message ≠ []) :
    (r.moveTo TaskState.cancelled now (some message) none).Shape :=
  ⟨Option.some_ne_none _, (h.open hlive).result, message, rfl, hne⟩

theorem Shape.edit {named : Prop} {r' : TaskRecord} {row : Option TaskRecord} (hn : named)
    (h : ∀ s, row = some s → s.Shape) (he : Process.RowEdit named row (some r')) : r'.Shape := by
  cases he with
  | same => exact h r' rfl
  | created => exact ⟨⟨rfl, rfl, rfl⟩, rfl, rfl, rfl⟩
  | begun hq => exact (h _ rfl).begun hq
  | settled hs hout => exact (h _ rfl).settled hn hs hout
  | cancelled hlive hne => exact (h _ rfl).cancelled hlive hne

theorem Shape.marked {now : String} (h : r.Shape) (hlive : r.state ∉ terminalStates)
    (hp : r.state ≠ pending) : (Store.markRecovering r now).Shape := by
  have ho := h.open hlive
  have hbegun : 1 ≤ r.attemptCount ∧ r.startedAt ≠ none := by
    unfold Shape at h
    cases hs : r.state <;> simp only [hs] at h hlive hp
    case running => exact ⟨h.2.1, h.2.2.2⟩
    case recovering => exact ⟨h.2.1, h.2.2.2⟩
    case pending => exact absurd rfl hp
    all_goals exact absurd (by decide) hlive
  exact ⟨⟨ho.completedAt, ho.result, ho.error⟩, hbegun.1, rfl, hbegun.2⟩

end TaskRecord

def Shaped (row : String → Option TaskRecord) : Prop := ∀ id r, row id = some r → r.Shape

/-- The runs in which every exception's class has a name. -/
def namedClasses : Allowed := ⟨fun _ => True, fun _ a => a.Named⟩

instance : DecidablePred namedClasses.settings := fun _ => isTrue trivial

instance (p : Process) (a : Action) : Decidable (namedClasses.action p a) :=
  inferInstanceAs (Decidable a.Named)

theorem shaped_rule : Rule namedClasses (fun w => Shaped w.store.get) fun p => Shaped p.row where
  empty := by
    intro id r hr
    cases hr
  mark := by
    intro w w' _ hd hm id r hr
    rcases hm.edit id with hs | ⟨s, now, hs, hs', hlive, hp⟩
    · exact hd id r (hs ▸ hr)
    · rw [hs'] at hr
      cases hr
      exact (hd id s hs).marked hlive hp
  boot := by
    intro w settings ready p _ _ hd hb
    rw [hb.row]
    exact hd
  move := by
    intro p p' a ha _ hu hm id r hr
    have he := hm.edit id
    rw [hr] at he
    exact TaskRecord.Shape.edit ha (hu id) he
  world _ hu := hu
  forget hd _ _ := hd

/-- In every reachable state each row has the shape of its state; so its end time
is set exactly when it is terminal, and it never has both a result and an error. -/
theorem row_shape {host : Host} {b : Bridge}
    (h : (Bridge.machine host).Reachable namedClasses.ok b) :
    ∀ id r, b.world.store.get id = some r → r.Shape ∧
      (r.completedAt ≠ none ↔ r.state ∈ terminalStates) ∧ (r.result = none ∨ r.error = none) := by
  have hb := shaped_rule.holds h
  have hshaped : Shaped b.world.store.get := by
    cases b with
    | down w => exact hb.2
    | up p => exact hb.2
  intro id r hr
  have hs := hshaped id r hr
  exact ⟨hs, hs.completedAt, hs.result_or_error⟩

/-- A task that completes, one that raises, one that is cancelled and one that a
crash interrupts. -/
theorem row_shape_restart : ∃ b : Bridge,
    (["a", "b", "c", "d"].map fun id => (b.world.store.get id).map TaskRecord.state) =
      [some completed, some timedOut, some cancelled, some recovering] ∧
    ∀ id r, b.world.store.get id = some r → r.result = none ∨ r.error = none := by
  obtain ⟨b, hb, hp⟩ := Runs.Machine.exists_reachable_of_run (Bridge.machine Sample.host)
    namedClasses.ok
    [.start (Sample.settings .manual 0) "t0", Sample.call "a" none, Sample.call "b" none,
      Sample.call "c" none, Sample.call "d" none, .act (.resume 0 "r" "t1"),
      .act (.workerReturned 0 (.str []) "t2"), .act (.resume 1 "s" "t3"),
      .act (.workerRaised 1 (.timeoutError []) "t4"), .act (.cancel "c" "t5"),
      .act (.resume 3 "u" "t6"), .crash, .start (Sample.settings .manual 0) "t7"]
    (fun b => decide ((["a", "b", "c", "d"].map fun id =>
        (b.world.store.get id).map TaskRecord.state) =
      [some completed, some timedOut, some cancelled, some recovering])) (by decide)
  rw [decide_eq_true_iff] at hp
  exact ⟨b, hp, fun id r hr => (row_shape hb id r hr).2.2⟩

end WorkerBridge
