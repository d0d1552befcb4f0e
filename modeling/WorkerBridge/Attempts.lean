import WorkerBridge.Shape

namespace WorkerBridge

open TaskState

/-- A call made for the task of an earlier one. -/
structure WorkerCall.Follows (later earlier : WorkerCall) : Prop where
  number : earlier.attemptNumber < later.attemptNumber
  key : later.idempotencyKey = earlier.idempotencyKey
  directory : later.workingDirectory = earlier.workingDirectory

/-- The row a call was made from, as far as later rows of the task still show it. -/
structure WorkerCall.From (c : WorkerCall) (r : TaskRecord) : Prop where
  number : c.attemptNumber ≤ r.attemptCount
  key : r.idempotencyKey = c.idempotencyKey
  directory : r.workingDirectory = c.workingDirectory

/-- The attempts the rows count and the calls made. -/
structure Numbered (row : String → Option TaskRecord) (calls : List WorkerCall) : Prop where
  unsent : ∀ id r, row id = some r → r.state = pending → r.attemptCount = 0
  begun : ∀ id r, row id = some r → r.state = running ∨ r.state = recovering → 1 ≤ r.attemptCount
  rows : ∀ c ∈ calls, ∃ r, row c.taskId = some r ∧ c.From r
  order : calls.Pairwise fun later earlier => later.taskId = earlier.taskId → later.Follows earlier
  flags : ∀ c ∈ calls, c.recoveryAttempt = true ↔ 1 < c.attemptNumber

theorem Numbered.sublist {row : String → Option TaskRecord} {calls calls' : List WorkerCall}
    (h : Numbered row calls) (hs : calls'.Sublist calls) : Numbered row calls' :=
  ⟨h.unsent, h.begun, fun c hc => h.rows c (hs.subset hc), h.order.sublist hs,
    fun c hc => h.flags c (hs.subset hc)⟩

namespace Process

variable {p p' : Process} {a : Action} {named : Prop}

theorem RowEdit.keeps {c : WorkerCall} {row row' : Option TaskRecord} {r : TaskRecord}
    (h : RowEdit named row row') (hr : row = some r) (hc : c.From r) :
    ∃ r', row' = some r' ∧ c.From r' := by
  subst hr
  cases h with
  | same => exact ⟨r, rfl, hc⟩
  | begun => exact ⟨_, rfl, hc.number.trans (Nat.le_succ _), hc.key, hc.directory⟩
  | settled => exact ⟨_, rfl, hc.number, hc.key, hc.directory⟩
  | cancelled => exact ⟨_, rfl, hc.number, hc.key, hc.directory⟩

/-- A call is made of the row that was written in the same step. -/
structure Begins (p p' : Process) (a : Action) (task : TaskRecord) (attemptId now : String) :
    Prop where
  action : ∃ i, a = .resume i attemptId now
  row : p.row task.taskId = some task
  queued : task.state ∈ queuedStates
  row' : p'.row task.taskId = some (task.begun attemptId now)
  calls : p'.world.calls = sentCall p.world.lifetimes (task.begun attemptId now)
    (decide (task.state = recovering)) :: p.world.calls

theorem Moves.begins (h : p.Moves a p') : p'.world.calls = p.world.calls ∨
    ∃ task attemptId now, Begins p p' a task attemptId now := by
  cases h with
  | @attempt i attemptId now k task store hat hph hreq hrow hs hstore =>
    have hid := taskId_of_row hrow
    refine Or.inr ⟨task, attemptId, now, ⟨i, rfl⟩, row_self hrow, hs, ?_, rfl⟩
    rw [hid]
    exact (rowSet hstore hrow rfl rfl).self
  | stop =>
    rw [stop_world]
    exact Or.inl rfl
  | _ => exact Or.inl rfl

theorem RowEdit.unsent {row : Option TaskRecord} {r' : TaskRecord}
    (h : RowEdit named row (some r'))
    (hu : ∀ r, row = some r → r.state = pending → r.attemptCount = 0)
    (hp : r'.state = pending) : r'.attemptCount = 0 := by
  cases h with
  | same => exact hu r' rfl hp
  | created => rfl
  | begun => cases hp
  | settled _ hout =>
    rw [TaskRecord.moveTo_state] at hp
    exact absurd (hp ▸ hout.terminal) (by decide)
  | cancelled => cases hp

theorem RowEdit.sent {row : Option TaskRecord} {r' : TaskRecord}
    (h : RowEdit named row (some r'))
    (hu : ∀ r, row = some r → r.state = running ∨ r.state = recovering → 1 ≤ r.attemptCount)
    (hs : r'.state = running ∨ r'.state = recovering) : 1 ≤ r'.attemptCount := by
  cases h with
  | same => exact hu r' rfl hs
  | created => rcases hs with hs | hs <;> cases hs
  | begun => exact Nat.le_add_left _ _
  | settled _ hout =>
    rw [TaskRecord.moveTo_state] at hs
    rcases hs with hs | hs
    · exact absurd (hs ▸ hout.terminal) (by decide)
    · exact absurd (hs ▸ hout.terminal) (by decide)
  | cancelled => rcases hs with hs | hs <;> cases hs

theorem Moves.numbered (hu : Numbered p.row p.world.calls)
    (hm : p.Moves a p') : Numbered p'.row p'.world.calls := by
  have hpending : ∀ id r, p'.row id = some r → r.state = pending → r.attemptCount = 0 := by
    intro id r hr
    have he := hm.edit id
    rw [hr] at he
    exact he.unsent (hu.unsent id)
  have hbegun : ∀ id r, p'.row id = some r → r.state = running ∨ r.state = recovering →
      1 ≤ r.attemptCount := by
    intro id r hr
    have he := hm.edit id
    rw [hr] at he
    exact he.sent (hu.begun id)
  have hrows : ∀ c ∈ p.world.calls, ∃ r, p'.row c.taskId = some r ∧ c.From r := by
    intro c hc
    obtain ⟨r, hr, hfrom⟩ := hu.rows c hc
    exact (hm.edit c.taskId).keeps hr hfrom
  rcases hm.begins with hc | ⟨task, attemptId, now, hb⟩
  · rw [hc]
    exact ⟨hpending, hbegun, hrows, hu.order, hu.flags⟩
  · rw [hb.calls]
    refine ⟨hpending, hbegun, ?_, ?_, ?_⟩
    · intro c hc
      rcases List.mem_cons.mp hc with rfl | hc
      · exact ⟨_, hb.row', le_rfl, rfl, rfl⟩
      · exact hrows c hc
    · refine List.pairwise_cons.mpr ⟨?_, hu.order⟩
      intro c hc hid
      obtain ⟨r, hr, hfrom⟩ := hu.rows c hc
      have hid' : task.taskId = c.taskId := hid
      rw [← hid', hb.row] at hr
      cases hr
      -- An earlier call took its number from this row, which has been counted up now.
      exact ⟨Nat.lt_succ_of_le hfrom.number, hfrom.key, hfrom.directory⟩
    · intro c hc
      rcases List.mem_cons.mp hc with rfl | hc
      · -- A pending row has no attempt yet; a recovering one has had one.
        show decide (task.state = recovering) = true ↔ 1 < task.attemptCount + 1
        rw [decide_eq_true_iff]
        constructor
        · intro hrec
          have := hu.begun _ _ hb.row (Or.inr hrec)
          omega
        · intro hone
          have hq := hb.queued
          simp only [queuedStates, List.mem_cons, List.not_mem_nil, or_false] at hq
          refine hq.resolve_left fun hp => ?_
          have := hu.unsent _ _ hb.row hp
          omega
      · exact hu.flags c hc

end Process

theorem Numbered.mark {w w' : World} (hsound : Sound w.store.get)
    (h : Numbered w.store.get w.calls) (hm : w.Marks w') : Numbered w'.store.get w'.calls := by
  obtain ⟨-, -, hc, -⟩ := hm.frame
  have hrunning : ∀ id r, w.store.get id = some r → r.state ∉ terminalStates →
      r.state ≠ pending → r.state = running ∨ r.state = recovering := by
    intro id r hr hlive hp
    have hn := hsound.notRetrying id r hr
    revert hlive hp hn
    cases r.state <;> decide
  refine ⟨?_, ?_, ?_, hc ▸ h.order, hc ▸ h.flags⟩
  · intro id r hr hp
    rcases hm.edit id with hs | ⟨s, now, -, hs', -⟩
    · exact h.unsent id r (hs ▸ hr) hp
    · rw [hs'] at hr
      cases hr
      cases hp
  · intro id r hr hs
    rcases hm.edit id with he | ⟨s, now, he, he', hlive, hp⟩
    · exact h.begun id r (he ▸ hr) hs
    · rw [he'] at hr
      cases hr
      exact h.begun id s he (hrunning id s he hlive hp)
  · rw [hc]
    intro c hmem
    obtain ⟨r, hr, hfrom⟩ := h.rows c hmem
    rcases hm.edit c.taskId with hs | ⟨s, now, hs, hs', -⟩
    · exact ⟨r, by rw [hs, hr], hfrom⟩
    · rw [hr] at hs
      cases hs
      exact ⟨_, hs', hfrom.number, hfrom.key, hfrom.directory⟩

theorem numbered_rule : Rule Allowed.any (fun w => Numbered w.store.get w.calls)
    fun p => Numbered p.row p.world.calls where
  empty := by
    refine ⟨?_, ?_, nofun, List.Pairwise.nil, nofun⟩ <;>
      · intro id r hr
        cases hr
  mark hsound hd hm := hd.mark hsound hm
  boot := by
    intro w settings ready p _ _ hd hb
    rw [hb.row, hb.world]
    exact hd
  move _ _ hu hm := hm.numbered hu
  world _ hu := hu
  forget hd hc _ := hd.sublist hc.sublist

def World.DistinctIds (w : World) : Prop :=
  w.calls.Pairwise fun c d => c.dispatchAttemptId ≠ d.dispatchAttemptId

/-- The runs in which a new attempt gets an id that no call has carried. -/
def freshAttempts : Allowed where
  settings _ := True
  action p a := match a with
    | .resume _ attemptId _ => ∀ c ∈ p.world.calls, c.dispatchAttemptId ≠ some attemptId
    | _ => True

instance : DecidablePred freshAttempts.settings := fun _ => isTrue trivial

instance (p : Process) (a : Action) : Decidable (freshAttempts.action p a) :=
  match a with
  | .resume _ attemptId _ =>
    inferInstanceAs (Decidable (∀ c ∈ p.world.calls, c.dispatchAttemptId ≠ some attemptId))
  | .call .. => isTrue trivial
  | .check .. => isTrue trivial
  | .cancel .. => isTrue trivial
  | .workerReturned .. => isTrue trivial
  | .workerRaised .. => isTrue trivial
  | .throwCancelled .. => isTrue trivial
  | .doneCallback .. => isTrue trivial
  | .stop => isTrue trivial
  | .stopped => isTrue trivial
  | .reload .. => isTrue trivial

theorem distinctIds_rule : Rule freshAttempts World.DistinctIds fun p => p.world.DistinctIds where
  empty := List.Pairwise.nil
  mark := by
    intro w w' _ hd hm
    unfold World.DistinctIds
    rw [hm.frame.2.2.1]
    exact hd
  boot := by
    intro w settings ready p _ _ hd hb
    rw [hb.world]
    exact hd
  move := by
    intro p p' a ha _ hu hm
    rcases hm.begins with hc | ⟨task, attemptId, now, hb⟩
    · unfold World.DistinctIds
      rw [hc]
      exact hu
    · obtain ⟨i, rfl⟩ := hb.action
      unfold World.DistinctIds
      rw [hb.calls]
      exact List.pairwise_cons.mpr ⟨fun c hc he => ha c hc he.symm, hu⟩
  world _ hu := hu
  forget hd hc _ := List.Pairwise.sublist hc.sublist hd

/-- The stored row shows the call: it is running, with the number and the id sent. -/
structure Store.Shows (st : Store) (c : WorkerCall) : Prop where
  row : ∃ r, st.get c.taskId = some r ∧ r.state = running ∧ r.attemptCount = c.attemptNumber ∧
    r.dispatchAttemptId = c.dispatchAttemptId
  id : c.dispatchAttemptId ≠ none

theorem Bridge.step_shows {host : Host} {b b' : Bridge} {e : Event}
    (hi : b.Holds (fun _ => True) Process.Inv) (h : b.step host e = some b') :
    b'.world.calls = b.world.calls ∨
      ∃ c, b'.world.calls = c :: b.world.calls ∧ b'.world.store.Shows c := by
  have hcrash : ∀ {w w' w'' : World} {lost : ℕ}, w.crashed w' lost = some w'' →
      w''.calls = w.calls := by
    intro w w' w'' lost hc
    obtain ⟨-, store, past, -, rfl⟩ := World.crashed_eq_some.mp hc
    rfl
  cases step_steps h with
  | started w settings now p hp =>
    obtain ⟨w', ready, hmarks, hboot⟩ := started_booted hp
    refine Or.inl ?_
    show p.world.calls = w.calls
    rw [hboot.world]
    exact hmarks.frame.2.1
  | startCrashed w settings now lost p w'' hp hc => exact Or.inl (hcrash hc)
  | acted p a p' hp =>
    rcases (Process.act_moves hi hp).begins with hc | ⟨task, attemptId, now, hb⟩
    · exact Or.inl hc
    · exact Or.inr ⟨_, hb.calls, ⟨_, hb.row', rfl, rfl, rfl⟩, Option.some_ne_none _⟩
  | actCrashed p a lost p' w hp hc => exact Or.inl (hcrash hc)
  | crashed p => exact Or.inl rfl

/-- Calls are numbered in their order with fresh ids, recovery is flagged from the
second on, and the row shows each call before it is made. -/
theorem attempts_written_ahead {host : Host} {b : Bridge}
    (h : (Bridge.machine host).Reachable freshAttempts.ok b) :
    (b.world.calls.Pairwise fun later earlier =>
      later.taskId = earlier.taskId → later.Follows earlier) ∧
    b.world.DistinctIds ∧
    (∀ c ∈ b.world.calls, c.recoveryAttempt = true ↔ 1 < c.attemptNumber) ∧
    ∀ e b', b.step host e = some b' → b'.world.calls = b.world.calls ∨
      ∃ c, b'.world.calls = c :: b.world.calls ∧ b'.world.store.Shows c := by
  have hany : (Bridge.machine host).Reachable Allowed.any.ok b :=
    h.mono fun _ _ _ => Allowed.any_ok
  have hn := numbered_rule.holds hany
  have hd := distinctIds_rule.holds h
  cases b with
  | down w => exact ⟨hn.2.order, hd.2, hn.2.flags, fun e b' => Bridge.step_shows trivial⟩
  | up p => exact ⟨hn.2.order, hd.2, hn.2.flags, fun e b' => Bridge.step_shows hn.1⟩

/-- A task sent twice, the second time by the process after a crash. -/
theorem attempts_written_ahead_restart : ∃ b : Bridge,
    b.world.calls.map (fun c => (c.attemptNumber, c.recoveryAttempt)) = [(2, true), (1, false)] ∧
      b.world.DistinctIds ∧
      ∀ c ∈ b.world.calls, c.recoveryAttempt = true ↔ 1 < c.attemptNumber := by
  obtain ⟨b, hb, hp⟩ := Runs.Machine.exists_reachable_of_run (Bridge.machine Sample.host)
    freshAttempts.ok
    [.start (Sample.settings .always 1) "t0", Sample.call "a" none, .act (.resume 0 "r" "t1"),
      .crash, .start (Sample.settings .always 1) "t2", .act (.resume 0 "s" "t3"),
      .act (.resume 0 "s" "t4")]
    (fun b => decide (b.world.calls.map (fun c => (c.attemptNumber, c.recoveryAttempt)) =
      [(2, true), (1, false)])) (by decide)
  rw [decide_eq_true_iff] at hp
  obtain ⟨-, hids, hflags, -⟩ := attempts_written_ahead hb
  exact ⟨b, hp, hids, hflags⟩

end WorkerBridge
