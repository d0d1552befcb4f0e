import WorkerBridge.Induction

namespace WorkerBridge

open TaskState

def Phase.begun : Phase → Bool
  | .sleeping _ | .calling => true
  | .created | .finished | .reaped => false

namespace Process

/-- What the event loop runs while `stop` waits and nobody calls the bridge. -/
def StopStep (host : Host) (p p' : Process) : Prop :=
  ∃ a, ((∃ i now, a = .throwCancelled i now) ∨ ∃ i, a = .doneCallback i) ∧ p.act host a = some p'

abbrev StopSteps (host : Host) : Process → Process → Prop := Relation.ReflTransGen (StopStep host)

/-- `stop` called in `p` returns in `p'`. -/
def StopRun (host : Host) (p p' : Process) : Prop :=
  ∃ q, p.act host .stop = some q ∧
    ((q.mgr.gathering = none ∧ p' = q) ∨
      ∃ q', StopSteps host q q' ∧ q'.act host .stopped = some p')

/-- No task is lost between `p` and `p'`, and a new process would recover the
same rows. -/
structure StopKeeps (p p' : Process) : Prop where
  live : ∀ id r, p.row id = some r → r.state ∉ terminalStates →
    ∃ r', p'.row id = some r' ∧ r'.state ∉ terminalStates
  recoverable : p'.store.listByStates Store.recoverableStates =
    p.store.listByStates Store.recoverableStates

/-- Every coroutine that has begun and waits belongs to a terminal row. -/
def Calm (p : Process) : Prop :=
  ∀ (i : ℕ) (h : Handle) (r : TaskRecord), p.mgr.handles[i]? = some h → h.phase.begun = true →
    p.row h.taskId = some r → r.state ∈ terminalStates

/-- Every coroutine that is not over has been cancelled. -/
def AllAsked (p : Process) : Prop :=
  ∀ (i : ℕ) (h : Handle), p.mgr.handles[i]? = some h → h.phase.done = false →
    h.cancelRequested = true

variable {host : Host} {p p' q : Process} {i : ℕ} {h : Handle}

theorem begun_not_done {phase : Phase} (hb : phase.begun = true) : phase.done = false := by
  cases phase <;> first | rfl | cases hb

theorem stop_at (hl : Live p.row p.mgr) {j : ℕ} {k : Handle}
    (hk : p.stop.mgr.handles[j]? = some k) :
    ∃ l, p.mgr.handles[j]? = some l ∧ k.taskId = l.taskId ∧ k.phase = l.phase ∧
      (l.phase.done = false → k.cancelRequested = true) := by
  unfold stop at hk
  split at hk
  · next hempty =>
    refine ⟨k, hk, rfl, rfl, ?_⟩
    intro hd
    have hb := hl.tracked j k hk hd
    rw [List.isEmpty_iff.mp hempty] at hb
    cases hb
  · obtain ⟨l, hl', hid, hph, -, hasked⟩ :=
      Coherent.cancelled_at (Coherent.cancelBackground_at p.mgr) hk
    refine ⟨l, hl', hid, hph, ?_⟩
    intro hd
    exact hasked (List.mem_map.mpr ⟨_, hl.tracked j l hl' hd, rfl⟩) hd

theorem stop_allAsked (hl : Live p.row p.mgr) : p.stop.AllAsked := by
  intro j k hk hd
  obtain ⟨l, -, -, hph, hreq⟩ := stop_at hl hk
  exact hreq (hph ▸ hd)

theorem Calm.stop (hc : p.Calm) (hl : Live p.row p.mgr) : p.stop.Calm := by
  intro j k r hk hb hr
  obtain ⟨l, hl', hid, hph, -⟩ := stop_at hl hk
  unfold row at hr
  rw [stop_world, hid] at hr
  exact hc j l r hl' (hph ▸ hb) hr

theorem StopStep.cases (hi : p.Inv) (hs : StopStep host p p') :
    ∃ (i : ℕ) (k : Handle) (r : TaskRecord) (phase : Phase), p.mgr.handles[i]? = some k ∧
      p.row k.taskId = some r ∧ phase.begun = false ∧ phase.done = true ∧
      p'.mgr.handles = (p.mgr.setPhase i phase).handles ∧
      p'.mgr.gathering = p.mgr.gathering ∧
      ((p'.world = p.world ∧ (k.phase.begun = true → r.state ∈ terminalStates)) ∨
        (k.phase.begun = true ∧ r.state ∉ terminalStates ∧
          ∃ r', RowSet p.row p'.row k.taskId r' ∧ r'.state ∈ terminalStates)) := by
  obtain ⟨a, ⟨i, now, rfl⟩ | ⟨i, rfl⟩, hact⟩ := hs
  · obtain ⟨k, r, hat, -, -, hrow, ⟨rfl, hend⟩ | ⟨hph, hlive, store, hstore, rfl⟩⟩ :=
      throwCancelled_cases hi hact
    · refine ⟨i, k, r, .finished, hat, hrow, rfl, rfl, rfl, rfl, Or.inl ⟨rfl, ?_⟩⟩
      intro hb
      rcases hend with hterm | hph
      · exact hterm
      · rw [hph] at hb
        cases hb
    · refine ⟨i, k, r, .finished, hat, hrow, rfl, rfl, rfl, rfl, Or.inr ⟨?_, hlive, _,
        rowSet hstore hrow rfl rfl, cancelled_terminal⟩⟩
      rcases hph with hph | hph <;> rw [hph] <;> rfl
  · simp only [act, doneCallback] at hact
    obtain ⟨k, hat, hstep⟩ := Option.bind_eq_some_iff.mp hact
    obtain ⟨r, hrow⟩ := hi.coherent.row_of_at hat
    split at hstep
    · next hph =>
      cases hstep
      refine ⟨i, k, r, .reaped, hat, hrow, rfl, rfl, rfl, rfl, Or.inl ⟨rfl, ?_⟩⟩
      intro hb
      rw [hph] at hb
      cases hb
    · cases hstep

theorem StopStep.inv (hi : p.Inv) (hs : StopStep host p p') : p'.Inv := by
  obtain ⟨a, -, hact⟩ := hs
  exact (act_moves hi hact).inv hi

theorem setPhase_other {phase : Phase} (hph : phase.done = true) {j : ℕ} {k : Handle}
    (hk : (p.mgr.setPhase i phase).handles[j]? = some k) (hd : k.phase.done = false) :
    i ≠ j ∧ p.mgr.handles[j]? = some k := by
  rw [Coherent.setPhase_at] at hk
  obtain ⟨l, hl, rfl⟩ := Option.map_eq_some_iff.mp hk
  split at hd
  · rw [hph] at hd
    cases hd
  · next he =>
    rw [if_neg he]
    exact ⟨he, hl⟩

theorem StopStep.calm (hi : p.Inv) (hc : p.Calm) (hs : StopStep host p p') :
    p'.world = p.world ∧ p'.Calm := by
  obtain ⟨i, k, r, phase, hat, hrow, -, hdone, hh, -, ⟨hw, -⟩ | ⟨hb, hlive, -⟩⟩ := hs.cases hi
  · refine ⟨hw, ?_⟩
    intro j l s hl hb hs
    rw [hh] at hl
    unfold row at hs
    rw [hw] at hs
    exact hc j l s (setPhase_other hdone hl (begun_not_done hb)).2 hb hs
  · exact absurd (hc i k r hat hb hrow) hlive

theorem StopSteps.calm (hi : p.Inv) (hc : p.Calm) (hs : StopSteps host p q) :
    q.world = p.world := by
  have hall : q.Inv ∧ q.world = p.world ∧ q.Calm := by
    induction hs with
    | refl => exact ⟨hi, rfl, hc⟩
    | tail _ hstep ih =>
      obtain ⟨hi', hw, hc'⟩ := ih
      obtain ⟨hw', hc''⟩ := hstep.calm hi' hc'
      exact ⟨hstep.inv hi', hw'.trans hw, hc''⟩
  exact hall.2.1

/-- Coroutine `i` of the task has begun and not moved on, or its row is terminal. -/
def Ending (p : Process) (i : ℕ) (taskId : String) : Prop :=
  (∃ k, p.mgr.handles[i]? = some k ∧ k.taskId = taskId ∧ k.phase.begun = true) ∨
    ∃ r, p.row taskId = some r ∧ r.state ∈ terminalStates

theorem StopStep.ending {taskId : String} (hi : p.Inv) (he : p.Ending i taskId)
    (hs : StopStep host p p') : p'.Ending i taskId := by
  obtain ⟨j, k, r, phase, hat, hrow, -, -, hh, -, hw⟩ := hs.cases hi
  -- A row that is terminal stays, as only rows that are not are written.
  have hstay : ∀ s, p.row taskId = some s → s.state ∈ terminalStates → p'.row taskId = some s := by
    intro s hs hterm
    rcases hw with ⟨hw, -⟩ | ⟨-, hlive, r', hset, -⟩
    · unfold row
      rw [hw]
      exact hs
    · by_cases hid : taskId = k.taskId
      · rw [hid, hrow] at hs
        cases hs
        exact absurd hterm hlive
      · rw [hset.other hid, hs]
  rcases he with ⟨l, hl, hlid, hb⟩ | ⟨s, hs, hterm⟩
  · by_cases hij : j = i
    · subst hij
      rw [hat] at hl
      cases hl
      subst hlid
      rcases hw with ⟨hw, hterm⟩ | ⟨-, -, r', hset, hterm⟩
      · refine Or.inr ⟨r, ?_, hterm hb⟩
        unfold row
        rw [hw]
        exact hrow
      · exact Or.inr ⟨r', hset.self, hterm⟩
    · refine Or.inl ⟨l, ?_, hlid, hb⟩
      rw [hh, Coherent.setPhase_ne hij, hl]
  · exact Or.inr ⟨s, hstay s hs hterm, hterm⟩

theorem StopSteps.ending {taskId : String} (hi : p.Inv) (he : p.Ending i taskId)
    (hs : StopSteps host p q) : q.Ending i taskId := by
  have hall : q.Inv ∧ q.Ending i taskId := by
    induction hs with
    | refl => exact ⟨hi, he⟩
    | tail _ hstep ih => exact ⟨hstep.inv ih.1, hstep.ending ih.1 ih.2⟩
  exact hall.2

theorem StopStep.allAsked (hi : p.Inv) (ha : p.AllAsked) (hs : StopStep host p p') :
    p'.AllAsked := by
  obtain ⟨j, k, r, phase, -, -, -, hdone, hh, -⟩ := hs.cases hi
  intro l m hm hd
  rw [hh] at hm
  exact ha l m (setPhase_other hdone hm hd).2 hd

theorem handleCancelled_handles (p : Process) (taskId now : String) :
    (p.handleCancelled taskId now).mgr.handles = p.mgr.handles := by
  cases hrow : p.row taskId with
  | none =>
    unfold handleCancelled
    simp only [hrow]
  | some task =>
    by_cases hterm : task.state ∈ terminalStates
    · rw [handleCancelled_terminal now hrow hterm]
    · obtain ⟨store, -, hc⟩ := handleCancelled_live now hrow hterm
      rw [hc]

theorem exists_throwCancelled (now : String) (hat : p.mgr.handles[i]? = some h)
    (hreq : h.cancelRequested = true) (hd : h.phase.done = false) :
    ∃ p', p.throwCancelled i now = some p' ∧
      p'.mgr.handles = (p.mgr.setPhase i .finished).handles := by
  have hbegun : ((p.handleCancelled h.taskId now).setPhase i .finished).mgr.handles =
      (p.mgr.setPhase i .finished).handles := by
    unfold setPhase Manager.setPhase
    simp only [handleCancelled_handles]
  unfold throwCancelled
  rw [hat]
  simp only [Option.filter_some, hreq, if_true, Option.bind_some]
  cases hph : h.phase <;> simp only [hph] at hd ⊢
  · exact ⟨_, rfl, rfl⟩
  · exact ⟨_, rfl, hbegun⟩
  · exact ⟨_, rfl, hbegun⟩
  · cases hd
  · cases hd

theorem exists_drained (hi : p.Inv) (ha : p.AllAsked) (n : ℕ) :
    ∃ q, StopSteps host p q ∧ q.Inv ∧ q.AllAsked ∧ q.mgr.gathering = p.mgr.gathering ∧
      ∀ i < n, q.mgr.done i = true := by
  induction n with
  | zero => exact ⟨p, Relation.ReflTransGen.refl, hi, ha, rfl, fun i hi => by omega⟩
  | succ n ih =>
    obtain ⟨q, hs, hqi, hqa, hg, hdone⟩ := ih
    by_cases hn : q.mgr.done n = true
    · -- Coroutine `n` is over already.
      refine ⟨q, hs, hqi, hqa, hg, ?_⟩
      intro i hin
      by_cases he : i = n
      · rw [he]
        exact hn
      · exact hdone i (by omega)
    · unfold Manager.done at hn
      split at hn
      · next k hk =>
        have hd : k.phase.done = false := by simpa using hn
        obtain ⟨q', hq', hh⟩ := exists_throwCancelled "" hk (hqa n k hk hd) hd
        have hstep : StopStep host q q' := ⟨_, Or.inl ⟨n, "", rfl⟩, hq'⟩
        refine ⟨q', hs.tail hstep, hstep.inv hqi, hstep.allAsked hqi hqa, ?_, ?_⟩
        · obtain ⟨_, _, _, _, -, -, -, -, -, hg', -⟩ := hstep.cases hqi
          rw [hg', hg]
        · intro i hin
          unfold Manager.done
          rw [hh]
          by_cases he : n = i
          · subst he
            rw [Coherent.setPhase_self hk]
            rfl
          · rw [Coherent.setPhase_ne he]
            exact hdone i (by omega)
      · exact absurd rfl hn

theorem act_stop (hg : p.mgr.gathering = none) : p.act host .stop = some p.stop := by
  simp only [act, hg, Option.isNone_none, if_true]

theorem stop_gathering (hg : p.mgr.gathering = none) :
    (p.mgr.background = [] ∧ p.stop.mgr.gathering = none) ∨
      p.stop.mgr.gathering = some (p.mgr.background.map Prod.snd) := by
  unfold stop
  split
  · next hempty => exact Or.inl ⟨List.isEmpty_iff.mp hempty, hg⟩
  · exact Or.inr rfl

theorem stop_inv (hi : p.Inv) (hg : p.mgr.gathering = none) : p.stop.Inv :=
  (Moves.stop hg).inv hi

/-- `stop` can always return. -/
theorem exists_stopRun (hi : p.Inv) (hs : p.mgr.started = true) (hg : p.mgr.gathering = none) :
    ∃ p', StopRun host p p' := by
  have hl := hi.coherent.live hs hg
  rcases stop_gathering hg with ⟨-, hnone⟩ | hsome
  · exact ⟨p.stop, p.stop, act_stop hg, Or.inl ⟨hnone, rfl⟩⟩
  · -- With every coroutine over, `gather` returns.
    obtain ⟨q, hsteps, -, -, hqg, hdone⟩ :=
      exists_drained (stop_inv hi hg) (stop_allAsked hl) p.mgr.handles.length
    rw [hsome] at hqg
    have hall : (p.mgr.background.map Prod.snd).all q.mgr.done = true := by
      rw [List.all_eq_true]
      intro j hj
      obtain ⟨e, he, rfl⟩ := List.mem_map.mp hj
      obtain ⟨k, hk, -⟩ := hi.coherent.entry e he
      exact hdone e.2 (List.getElem?_eq_some_iff.mp hk).1
    refine ⟨q.stopped, p.stop, act_stop hg, Or.inr ⟨q, hsteps, ?_⟩⟩
    simp only [act, hqg, hall, if_true]

theorem stopped_eq (h : p.act host .stopped = some p') :
    p'.world = p.world ∧
      ∃ gathered, p.mgr.gathering = some gathered ∧ ∀ i ∈ gathered, p.mgr.done i = true := by
  simp only [act] at h
  split at h
  · next gathered hg =>
    split at h
    · next hall =>
      cases h
      exact ⟨rfl, gathered, hg, by simpa using hall⟩
    · cases h
  · cases h

theorem StopRun.calm (hi : p.Inv) (hl : Live p.row p.mgr) (hg : p.mgr.gathering = none)
    (hc : p.Calm) (hr : StopRun host p p') : p'.world = p.world := by
  obtain ⟨q, hq, hrest⟩ := hr
  rw [act_stop hg] at hq
  cases hq
  rcases hrest with ⟨-, rfl⟩ | ⟨q', hsteps, hend⟩
  · exact stop_world p
  · rw [(stopped_eq hend).1, hsteps.calm (stop_inv hi hg) (hc.stop hl), stop_world]

theorem StopSteps.gathering (hi : p.Inv) (hs : StopSteps host p q) :
    q.mgr.gathering = p.mgr.gathering := by
  have hall : q.Inv ∧ q.mgr.gathering = p.mgr.gathering := by
    induction hs with
    | refl => exact ⟨hi, rfl⟩
    | tail _ hstep ih =>
      obtain ⟨_, _, _, _, -, -, -, -, -, hg, -⟩ := hstep.cases ih.1
      exact ⟨hstep.inv ih.1, hg.trans ih.2⟩
  exact hall.2

/-- The row of a coroutine that has begun is terminal when `stop` returns. -/
theorem StopRun.ends (hi : p.Inv) (hl : Live p.row p.mgr) (hg : p.mgr.gathering = none)
    (hat : p.mgr.handles[i]? = some h) (hb : h.phase.begun = true) (hr : StopRun host p p') :
    ∃ r, p'.row h.taskId = some r ∧ r.state ∈ terminalStates := by
  have htracked := hl.tracked i h hat (begun_not_done hb)
  obtain ⟨q, hq, hrest⟩ := hr
  rw [act_stop hg] at hq
  cases hq
  rcases stop_gathering hg with ⟨hempty, -⟩ | hsome
  · rw [hempty] at htracked
    cases htracked
  rcases hrest with ⟨hnone, -⟩ | ⟨q', hsteps, hend⟩
  · rw [hsome] at hnone
    cases hnone
  · have hbegin : p.stop.Ending i h.taskId := by
      have hne : ¬ p.mgr.background.isEmpty = true := by
        intro he
        rw [List.isEmpty_iff.mp he] at htracked
        cases htracked
      refine Or.inl ⟨h.cancel, ?_, h.cancel_taskId, by rw [h.cancel_phase]; exact hb⟩
      unfold stop
      rw [if_neg hne]
      simp only [Coherent.cancelBackground_at, hat, Option.map_some]
      rw [if_pos (List.mem_map.mpr ⟨_, htracked, rfl⟩)]
    obtain ⟨hw, gathered, hqg, hdone⟩ := stopped_eq hend
    rw [hsteps.gathering (stop_inv hi hg), hsome] at hqg
    cases hqg
    rcases hsteps.ending (stop_inv hi hg) hbegin with ⟨k, hk, -, hkb⟩ | ⟨r, hrow, hterm⟩
    · have hover := hdone i (List.mem_map.mpr ⟨_, htracked, rfl⟩)
      unfold Manager.done at hover
      simp only [hk, begun_not_done hkb] at hover
      cases hover
    · refine ⟨r, ?_, hterm⟩
      unfold row
      rw [hw]
      exact hrow

end Process

theorem inv_rule : Rule Allowed.any (fun _ => True) fun _ => True :=
  ⟨trivial, fun _ _ _ => trivial, fun _ _ _ _ => trivial, fun _ _ _ _ => trivial,
    fun _ _ => trivial, fun _ _ _ => trivial⟩

theorem inv_of_reachable {host : Host} {p : Process}
    (h : (Bridge.machine host).Reachable Runs.anyStep (.up p)) : p.Inv :=
  (inv_rule.holds (h.mono fun _ _ _ => Allowed.any_ok)).1

/-- `stop` loses no task exactly when every coroutine that has begun belongs to a
row that is terminal already. -/
theorem stop_keeps_iff {host : Host} {p : Process}
    (h : (Bridge.machine host).Reachable Runs.anyStep (.up p)) (hs : p.mgr.started = true)
    (hg : p.mgr.gathering = none) :
    (∃ p', Process.StopRun host p p') ∧
      ((∀ p', Process.StopRun host p p' → p.StopKeeps p') ↔ p.Calm) := by
  have hi := inv_of_reachable h
  have hl := hi.coherent.live hs hg
  obtain ⟨p', hrun⟩ : ∃ p', Process.StopRun host p p' := Process.exists_stopRun hi hs hg
  refine ⟨⟨p', hrun⟩, ?_, ?_⟩
  · -- A live row of such a coroutine would be terminal after the run.
    intro hkeeps i k r hat hb hrow
    by_contra hlive
    obtain ⟨r', hr', hterm⟩ := hrun.ends hi hl hg hat hb
    obtain ⟨s, hs', hslive⟩ := (hkeeps p' hrun).live _ r hrow hlive
    rw [hr'] at hs'
    cases hs'
    exact hslive hterm
  · intro hc q hq
    have hw := hq.calm hi hl hg hc
    refine ⟨?_, ?_⟩
    · intro id r hrow hlive
      refine ⟨r, ?_, hlive⟩
      unfold Process.row
      rw [hw]
      exact hrow
    · unfold Process.store
      rw [hw]

/-- A task that waits for its first turn survives `stop`. -/
theorem stop_keeps_pending : ∃ p : Process, (p.row "a").map TaskRecord.state = some pending ∧
    ∀ p', Process.StopRun Sample.host p p' → p.StopKeeps p' := by
  obtain ⟨b, hb, hp⟩ := Runs.Machine.exists_reachable_of_run
    (Bridge.machine Sample.host) Runs.anyStep
    [.start (Sample.settings .always 0) "t0", Sample.call "a" none]
    (fun
      | .up p => p.mgr.started && p.mgr.gathering.isNone &&
          p.mgr.handles.all (fun h => !h.phase.begun) &&
          decide ((p.row "a").map TaskRecord.state = some pending)
      | .down _ => false)
    (by decide)
  cases b with
  | down w => cases hp
  | up p =>
    simp only [Bool.and_eq_true, decide_eq_true_iff, Option.isNone_iff_eq_none,
      List.all_eq_true] at hp
    obtain ⟨⟨⟨hs, hg⟩, hbegun⟩, hrow⟩ := hp
    refine ⟨p, hrow, (stop_keeps_iff hb hs hg).2.mpr ?_⟩
    intro i h r hat hbeg
    have hnot := hbegun h (List.mem_of_getElem? hat)
    rw [hbeg] at hnot
    cases hnot

/-- A task that waits for its worker does not: `stop` writes it down as cancelled. -/
theorem stop_cancels_running : ∃ p p' : Process,
    (Bridge.machine Sample.host).Reachable Runs.anyStep (.up p) ∧ p.mgr.started = true ∧
      p.mgr.gathering = none ∧ Process.StopRun Sample.host p p' ∧
      (p.row "a").map TaskRecord.state = some running ∧
      (p'.row "a").map TaskRecord.state = some cancelled ∧ ¬ p.StopKeeps p' := by
  obtain ⟨b, hb, hp⟩ := Runs.Machine.exists_reachable_of_run
    (Bridge.machine Sample.host) Runs.anyStep
    [.start (Sample.settings .always 0) "t0", Sample.call "a" none, .act (.resume 0 "r" "t1")]
    (fun
      | .up p =>
        match ((p.act Sample.host .stop).bind fun q =>
            q.act Sample.host (.throwCancelled 0 "t2")).bind fun q =>
              q.act Sample.host .stopped with
        | some p' => p.mgr.started && p.mgr.gathering.isNone &&
            decide ((p.row "a").map TaskRecord.state = some running) &&
            decide ((p'.row "a").map TaskRecord.state = some cancelled)
        | none => false
      | .down _ => false)
    (by decide)
  cases b with
  | down w => cases hp
  | up p =>
    simp only at hp
    split at hp
    · next p' hrun =>
      obtain ⟨q', hq', hend⟩ := Option.bind_eq_some_iff.mp hrun
      obtain ⟨q, hq, hthrow⟩ := Option.bind_eq_some_iff.mp hq'
      simp only [Bool.and_eq_true, decide_eq_true_iff, Option.isNone_iff_eq_none] at hp
      obtain ⟨⟨⟨hs, hg⟩, hrunning⟩, hcancelled⟩ := hp
      have hstep : Process.StopStep Sample.host q q' := ⟨_, Or.inl ⟨0, "t2", rfl⟩, hthrow⟩
      refine ⟨p, p', hb, hs, hg, ⟨q, hq, Or.inr ⟨q', .single hstep, hend⟩⟩, hrunning,
        hcancelled, ?_⟩
      intro hkeeps
      obtain ⟨r, hrow, hr⟩ := Option.map_eq_some_iff.mp hrunning
      obtain ⟨r', hrow', hlive⟩ := hkeeps.live "a" r hrow (by rw [hr]; decide)
      rw [hrow'] at hcancelled
      apply hlive
      rw [Option.some.inj hcancelled]
      decide
    · cases hp

end WorkerBridge
