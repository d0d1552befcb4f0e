import WorkerBridge.Induction

namespace WorkerBridge

open TaskState

/-- The coroutine has not come to `workers.call`. -/
def Phase.unsent : Phase → Bool
  | .created | .sleeping _ => true
  | .calling | .finished | .reaped => false

theorem Phase.not_done_of_unsent {phase : Phase} (h : phase.unsent = true) :
    phase.done = false := by
  cases phase <;> first | rfl | cases h

theorem Outcome.terminal {named : Prop} {target : TaskState} {error : Option Text}
    {result : Option Json} (h : Outcome named target error result) : target ∈ terminalStates := by
  have hmem : ∀ s ∈ [failed, timedOut], s ∈ terminalStates := by decide
  cases h with
  | returned => decide
  | raised ht => exact hmem _ ht

namespace Process

variable {p p' : Process} {a : Action}

/-- Every edit a step can make to the row of one task. -/
inductive RowEdit (named : Prop) : Option TaskRecord → Option TaskRecord → Prop
  | same {r : Option TaskRecord} : RowEdit named r r
  | created {taskId workerId : String} {prompt directory : Text} {key : Option String}
      {timeout : ℚ} {now : String} :
      RowEdit named none
        (some (TaskRecord.new taskId workerId prompt (some directory) key timeout now))
  | begun {r : TaskRecord} {attemptId now : String} (hq : r.state ∈ queuedStates) :
      RowEdit named (some r) (some (r.begun attemptId now))
  | settled {r : TaskRecord} {target : TaskState} {now : String} {error : Option Text}
      {result : Option Json} (hs : r.state = running) (hout : Outcome named target error result) :
      RowEdit named (some r) (some (r.moveTo target now error result))
  | cancelled {r : TaskRecord} {now : String} {error : Text} (hlive : r.state ∉ terminalStates)
      (hne : error ≠ []) :
      RowEdit named (some r) (some (r.moveTo TaskState.cancelled now (some error) none))

theorem RowEdit.of_set {named : Prop} {row row' : String → Option TaskRecord} {taskId : String}
    {old : Option TaskRecord} {r' : TaskRecord} (hset : RowSet row row' taskId r')
    (hrow : row taskId = old) (he : RowEdit named old (some r')) (id : String) :
    RowEdit named (row id) (row' id) := by
  by_cases hid : id = taskId
  · rw [hid, hrow, hset.self]
    exact he
  · rw [hset.other hid]
    exact .same

theorem Moves.edit (h : p.Moves a p') (id : String) : RowEdit a.Named (p.row id) (p'.row id) := by
  cases h with
  | @accept _ taskId _ _ _ task store hfresh htask _ hstore =>
    have hset : RowSet p.row store.get taskId task :=
      RowSet.of_insert (congrArg TaskRecord.taskId htask) hstore
    exact .of_set hset hfresh (by rw [htask]; exact .created) id
  | cancel hrow hlive hstore =>
    exact .of_set (rowSet hstore hrow rfl rfl) hrow (.cancelled hlive (by decide)) id
  | attempt _ _ _ hrow hs hstore =>
    exact .of_set (rowSet hstore hrow rfl rfl) hrow (.begun hs) id
  | settle _ _ hrow hs _ hstore hout =>
    exact .of_set (rowSet hstore hrow rfl rfl) hrow (.settled hs hout) id
  | abandon _ _ _ hrow hlive hstore =>
    exact .of_set (rowSet hstore hrow rfl rfl) hrow (.cancelled hlive (by decide)) id
  | stop =>
    unfold Process.row
    rw [stop_world]
    exact .same
  | _ => exact .same

/-- How a step can change the row of one task: not at all, from nothing to
pending, or from a live state to one that is not queued. -/
inductive RowMove : Option TaskRecord → Option TaskRecord → Prop
  | same {r : Option TaskRecord} : RowMove r r
  | new {r' : TaskRecord} (hs : r'.state = pending) : RowMove none (some r')
  | change {r r' : TaskRecord} (hlive : r.state ∉ terminalStates) (hs : r'.state ∉ queuedStates)
      (hkey : r'.idempotencyKey = r.idempotencyKey) (hworker : r'.workerId = r.workerId) :
      RowMove (some r) (some r')

theorem not_terminal_of_queued {s : TaskState} (h : s ∈ queuedStates) : s ∉ terminalStates := by
  revert h
  cases s <;> decide

theorem RowEdit.move {named : Prop} {row row' : Option TaskRecord} (h : RowEdit named row row') :
    RowMove row row' := by
  cases h with
  | same => exact .same
  | created => exact .new rfl
  | begun hq =>
    exact .change (not_terminal_of_queued hq) (show running ∉ queuedStates by decide) rfl rfl
  | settled hs hout =>
    refine .change ?_ (fun hq => not_terminal_of_queued hq hout.terminal) rfl rfl
    rw [hs]
    decide
  | cancelled hlive _ =>
    exact .change hlive (show TaskState.cancelled ∉ queuedStates by decide) rfl rfl

theorem Moves.row (h : p.Moves a p') (id : String) : RowMove (p.row id) (p'.row id) :=
  (h.edit id).move

theorem Moves.row_of_recovering (h : p.Moves a p') {id : String} {r : TaskRecord}
    (hr : p'.row id = some r) (hrec : r.state = recovering) : p.row id = some r := by
  have hmove := h.row id
  rw [hr] at hmove
  generalize hold : p.row id = old at hmove
  cases hmove with
  | same => rfl
  | new hp =>
    rw [hrec] at hp
    cases hp
  | change _ hnq =>
    rw [hrec] at hnq
    exact absurd (by decide) hnq

/-- Coroutine `i` goes on to `phase`; when it ends its row is terminal, or it was
cancelled and the row is as before. -/
structure Advances (p p' : Process) (i : ℕ) (k : Handle) (phase : Phase) : Prop where
  handle : p.mgr.handles[i]? = some k
  handles' : p'.mgr.handles = (p.mgr.setPhase i phase).handles
  unsent : phase.unsent = true → k.phase.unsent = true
  undone : phase.done = false → k.phase.done = false
  ends : phase.done = true → k.phase.done = true ∨
    (∃ r, p'.row k.taskId = some r ∧ r.state ∈ terminalStates) ∨
      (k.cancelRequested = true ∧ p'.row k.taskId = p.row k.taskId)

theorem advances_of_done {i : ℕ} {k : Handle} {phase : Phase} (hat : p.mgr.handles[i]? = some k)
    (hh : p'.mgr.handles = (p.mgr.setPhase i phase).handles) (hd : phase.done = true)
    (hends : k.phase.done = true ∨ (∃ r, p'.row k.taskId = some r ∧ r.state ∈ terminalStates) ∨
      (k.cancelRequested = true ∧ p'.row k.taskId = p.row k.taskId)) :
    Advances p p' i k phase := by
  refine ⟨hat, hh, ?_, ?_, fun _ => hends⟩
  · intro hu
    rw [Phase.not_done_of_unsent hu] at hd
    cases hd
  · intro hf
    rw [hd] at hf
    cases hf

theorem Moves.coroutines (h : p.Moves a p') :
    (∀ (j : ℕ) (k : Handle), p.mgr.handles[j]? = some k →
      ∃ k', p'.mgr.handles[j]? = some k' ∧ k'.taskId = k.taskId ∧ k'.phase = k.phase) ∨
      ∃ i k phase, Advances p p' i k phase := by
  cases h with
  | idle => exact Or.inl fun j k hk => ⟨k, hk, rfl, rfl⟩
  | replay => exact Or.inl fun j k hk => ⟨k, hk, rfl, rfl⟩
  | accept => exact Or.inl fun j k hk => ⟨k, Coherent.track_at.mpr (Or.inl hk), rfl, rfl⟩
  | @cancel taskId =>
    exact Or.inl fun j k hk =>
      ⟨_, (Coherent.cancelTracked_at p.mgr taskId j).trans (by rw [hk]; rfl),
        k.ite_cancel_taskId _, k.ite_cancel_phase _⟩
  | sleep hat hph =>
    refine Or.inr ⟨_, _, _, hat, rfl, ?_, ?_, fun hd => by cases hd⟩
    · exact fun _ => by rw [hph]; rfl
    · exact fun _ => by rw [hph]; rfl
  | attempt hat hph =>
    refine Or.inr ⟨_, _, .calling, hat, rfl, ?_, fun _ => not_done_of_sent hph, ?_⟩
    · intro hu
      cases hu
    · intro hd
      cases hd
  | quit hat hdone hrow hr =>
    refine Or.inr ⟨_, _, _, advances_of_done hat rfl rfl (Or.inr ?_)⟩
    rcases hr with hterm | ⟨-, hreq⟩
    · exact Or.inl ⟨_, hrow, hterm⟩
    · exact Or.inr ⟨hreq, rfl⟩
  | settle hat hph hrow hs ht hstore =>
    have hmem : ∀ s ∈ [completed, failed, timedOut], s ∈ terminalStates := by decide
    exact Or.inr ⟨_, _, _, advances_of_done hat rfl rfl
      (Or.inr (Or.inl ⟨_, (rowSet hstore hrow rfl rfl).self, hmem _ ht⟩))⟩
  | abandon hat _ _ hrow _ hstore =>
    exact Or.inr ⟨_, _, _, advances_of_done hat rfl rfl
      (Or.inr (Or.inl ⟨_, (rowSet hstore hrow rfl rfl).self, cancelled_terminal⟩))⟩
  | callback hat hph =>
    exact Or.inr ⟨_, _, _, advances_of_done hat rfl rfl (Or.inl (by rw [hph]; rfl))⟩
  | stop =>
    refine Or.inl fun j k hk => ?_
    unfold Process.stop
    split
    · exact ⟨k, hk, rfl, rfl⟩
    · exact ⟨_, (Coherent.cancelBackground_at p.mgr j).trans (by rw [hk]; rfl),
        k.ite_cancel_taskId _, k.ite_cancel_phase _⟩
  | stopped => exact Or.inl fun j k hk => ⟨k, hk, rfl, rfl⟩
  | reload => exact Or.inl fun j k hk => ⟨k, hk, rfl, rfl⟩

/-- A coroutine keeps its place and its task, and does not come back to life. -/
structure HandleMove (k k' : Handle) : Prop where
  taskId : k'.taskId = k.taskId
  done : k'.phase.done = false → k.phase.done = false
  unsent : k'.phase.unsent = true → k.phase.unsent = true

theorem Moves.handle (h : p.Moves a p') {j : ℕ} {k : Handle} (hk : p.mgr.handles[j]? = some k) :
    ∃ k', p'.mgr.handles[j]? = some k' ∧ HandleMove k k' := by
  rcases h.coroutines with hsame | ⟨i, l, phase, hadv⟩
  · obtain ⟨k', hk', hid, hph⟩ := hsame j k hk
    exact ⟨k', hk', hid, by rw [hph]; exact id, by rw [hph]; exact id⟩
  · rw [hadv.handles', Coherent.setPhase_at, hk]
    refine ⟨_, rfl, ?_⟩
    split
    · next he =>
      subst he
      rw [hadv.handle] at hk
      cases hk
      exact ⟨rfl, hadv.undone, hadv.unsent⟩
    · exact ⟨rfl, id, id⟩

theorem Moves.handle_live (h : p.Moves a p') (hi : p.Inv) (hl : Live p.row p.mgr) {j : ℕ}
    {k : Handle} (hk : p.mgr.handles[j]? = some k) (hd : k.phase.done = false) :
    (∃ k', p'.mgr.handles[j]? = some k' ∧ k'.taskId = k.taskId ∧ k'.phase.done = false) ∨
      ∃ r, p'.row k.taskId = some r ∧ r.state ∈ terminalStates := by
  -- Until `stop`, a coroutine ends only with a terminal row.
  rcases h.coroutines with hsame | ⟨i, l, phase, hadv⟩
  · obtain ⟨k', hk', hid, hph⟩ := hsame j k hk
    exact Or.inl ⟨k', hk', hid, by rw [hph]; exact hd⟩
  · by_cases he : i = j
    · subst he
      obtain rfl : l = k := Option.some.inj (hadv.handle.symm.trans hk)
      cases hphase : phase.done with
      | false =>
        refine Or.inl ⟨{ l with phase := phase }, ?_, rfl, hphase⟩
        rw [hadv.handles', Coherent.setPhase_self hk]
      | true =>
        rcases hadv.ends hphase with hover | hterm | ⟨hreq, hrow⟩
        · rw [hd] at hover
          cases hover
        · exact Or.inr hterm
        · -- Cancelled before `stop`: its row was ended first.
          obtain ⟨r, hr⟩ := hi.coherent.row_of_at hk
          exact Or.inr ⟨r, hrow.trans hr, hl.asked i l r hk hd hreq hr⟩
    · refine Or.inl ⟨k, ?_, rfl, hd⟩
      rw [hadv.handles', Coherent.setPhase_ne he, hk]

theorem Moves.handle_old (h : p.Moves a p') {j : ℕ} {k' : Handle}
    (hk : p'.mgr.handles[j]? = some k') :
    (∃ k, p.mgr.handles[j]? = some k ∧ HandleMove k k') ∨ p.row k'.taskId = none := by
  by_cases hold : ∃ k, p.mgr.handles[j]? = some k
  · obtain ⟨k, hj⟩ := hold
    obtain ⟨l, hl, hm⟩ := h.handle hj
    rw [hk] at hl
    cases hl
    exact Or.inl ⟨k, hj, hm⟩
  · -- Only `accept` makes the list longer.
    have hnone : p.mgr.handles[j]? = none := by
      cases hj : p.mgr.handles[j]? with
      | none => rfl
      | some k => exact absurd ⟨k, hj⟩ hold
    have hphase : ∀ {i : ℕ} {phase : Phase}, (p.mgr.setPhase i phase).handles[j]? ≠ some k' := by
      intro i phase hs
      rw [Coherent.setPhase_at, hnone] at hs
      cases hs
    cases h with
    | accept hfresh =>
      rcases Coherent.track_at.mp hk with hk | ⟨-, rfl⟩
      · rw [hnone] at hk
        cases hk
      · exact Or.inr hfresh
    | idle => exact absurd ⟨_, hk⟩ hold
    | replay => exact absurd ⟨_, hk⟩ hold
    | @cancel taskId =>
      have hs := (Coherent.cancelTracked_at p.mgr taskId j).symm.trans hk
      rw [hnone] at hs
      cases hs
    | sleep => exact absurd hk hphase
    | attempt => exact absurd hk hphase
    | quit => exact absurd hk hphase
    | settle => exact absurd hk hphase
    | abandon => exact absurd hk hphase
    | callback => exact absurd hk hphase
    | stop =>
      unfold Process.stop at hk
      split at hk
      · exact absurd ⟨_, hk⟩ hold
      · have hs := (Coherent.cancelBackground_at p.mgr j).symm.trans hk
        rw [hnone] at hs
        cases hs
    | stopped => exact absurd ⟨_, hk⟩ hold
    | reload => exact absurd ⟨_, hk⟩ hold

/-- Coroutine `i` sends its task by the call `c`. -/
structure Sends (p p' : Process) (i : ℕ) (k k' : Handle) (r r' : TaskRecord) (c : WorkerCall) :
    Prop where
  handle : p.mgr.handles[i]? = some k
  unsent : k.phase.unsent = true
  row : p.row k.taskId = some r
  queued : r.state ∈ queuedStates
  handle' : p'.mgr.handles[i]? = some k'
  taskId' : k'.taskId = k.taskId
  sent' : k'.phase.unsent = false
  row' : p'.row k.taskId = some r'
  running' : r'.state = running
  key' : r'.idempotencyKey = r.idempotencyKey
  callTaskId : c.taskId = k.taskId
  callLifetime : c.lifetime = p.world.lifetimes
  calls : p'.world.calls = c :: p.world.calls

theorem Moves.calls (h : p.Moves a p') : p'.world.calls = p.world.calls ∨
    ∃ i k k' r r' c, Sends p p' i k k' r r' c := by
  cases h with
  | @attempt i attemptId now k task store hat hph hreq hrow hs hstore =>
    refine Or.inr ⟨i, k, { k with phase := .calling }, task, task.begun attemptId now, _, hat, ?_,
      hrow, hs, Coherent.setPhase_self hat, rfl, rfl, (rowSet hstore hrow rfl rfl).self, rfl, rfl,
      taskId_of_row hrow, rfl, rfl⟩
    rcases hph with hph | hph <;> rw [hph] <;> rfl
  | stop =>
    rw [stop_world]
    exact Or.inl rfl
  | _ => exact Or.inl rfl

theorem Moves.answers (h : p.Moves a p') : p'.world.answers = p.world.answers ∨
    ∃ (key : Option String) (r : TaskRecord), r.idempotencyKey = key ∧
      p'.row r.taskId = some r ∧ p'.world.answers = ⟨key, r.taskId⟩ :: p.world.answers ∧
      ((p.row r.taskId = some r ∧ key ≠ none ∧ key ≠ some "") ∨
        (p.row r.taskId = none ∧ ∀ k, key = some k → p.store.getByIdempotencyKey k = none)) := by
  cases h with
  | replay hkey hreq hrow hk =>
    refine Or.inr ⟨_, _, hk.trans hreq.symm, hrow, rfl, Or.inl ⟨hrow, ?_, ?_⟩⟩
    · rw [hreq]
      exact Option.some_ne_none _
    · rw [hreq]
      exact fun he => hkey (Option.some.inj he)
  | @accept request taskId _ _ _ task store hfresh htask _ hstore =>
    have hid : task.taskId = taskId := congrArg TaskRecord.taskId htask
    have hk : task.idempotencyKey = request.idempotencyKey :=
      congrArg TaskRecord.idempotencyKey htask
    have hset : RowSet p.row store.get taskId task := RowSet.of_insert hid hstore
    refine Or.inr ⟨_, task, hk, ?_, ?_, Or.inr ⟨?_, ?_⟩⟩
    · rw [hid]
      exact hset.self
    · rw [hid]
    · rw [hid]
      exact hfresh
    · intro k he
      exact Store.getByIdempotencyKey_of_insert hstore (hk.trans he)
  | stop =>
    rw [stop_world]
    exact Or.inl rfl
  | _ => exact Or.inl rfl

/-- A step that inserts a task was let through by the limits. -/
structure Accepts (p p' : Process) (request : CallRequest) (taskId : String) (task : TaskRecord) :
    Prop where
  limits : p.mgr.enforceAsyncLimits p.store request.workerId = .ok ()
  fresh : p.row taskId = none
  row' : p'.row taskId = some task
  other' : ∀ id, id ≠ taskId → p'.row id = p.row id
  pending : task.state = TaskState.pending
  worker : task.workerId = request.workerId
  first : ∀ key, request.idempotencyKey = some key → p.store.getByIdempotencyKey key = none
  background' : p'.mgr.background = p.mgr.background ++ [(taskId, p.mgr.handles.length)]

theorem Moves.accepts (hi : p.Inv) (h : p.Moves a p') :
    ((∀ id, p.row id = none → p'.row id = none) ∧ p'.mgr.background.Sublist p.mgr.background) ∨
      ∃ request taskId now task, a = .call request taskId now ∧
        Accepts p p' request taskId task := by
  have hkeep : ∀ {st : Store} {t : String} {r r' : TaskRecord}, p.row t = some r →
      RowSet p.row st.get t r' → ∀ id, p.row id = none → st.get id = none := by
    intro st t r r' hr hset id hid
    rw [hset.other]
    · exact hid
    · intro he
      rw [he, hr] at hid
      cases hid
  cases h with
  | @accept request taskId now _ _ task store hfresh htask hlim hstore =>
    have hset : RowSet p.row store.get taskId task :=
      RowSet.of_insert (congrArg TaskRecord.taskId htask) hstore
    refine Or.inr ⟨request, taskId, now, task, rfl, hlim, hfresh, hset.self,
      fun id hne => hset.other hne, congrArg TaskRecord.state htask,
      congrArg TaskRecord.workerId htask, ?_, ?_⟩
    · intro key hk
      exact Store.getByIdempotencyKey_of_insert hstore
        ((congrArg TaskRecord.idempotencyKey htask).trans hk)
    · exact Coherent.track_background (backgroundGet_eq_none hi.coherent hfresh)
  | cancel hrow _ hstore =>
    exact Or.inl ⟨hkeep hrow (rowSet hstore hrow rfl rfl), List.Sublist.refl _⟩
  | attempt _ _ _ hrow _ hstore =>
    exact Or.inl ⟨hkeep hrow (rowSet hstore hrow rfl rfl), List.Sublist.refl _⟩
  | settle _ _ hrow _ _ hstore =>
    exact Or.inl ⟨hkeep hrow (rowSet hstore hrow rfl rfl), List.Sublist.refl _⟩
  | abandon _ _ _ hrow _ hstore =>
    exact Or.inl ⟨hkeep hrow (rowSet hstore hrow rfl rfl), List.Sublist.refl _⟩
  | callback => exact Or.inl ⟨fun _ hid => hid, List.filter_sublist⟩
  | stop =>
    refine Or.inl ⟨?_, ?_⟩
    · unfold Process.row
      rw [stop_world]
      exact fun _ hid => hid
    · unfold Process.stop
      split
      · exact List.nil_sublist _
      · exact List.Sublist.refl _
  | stopped => exact Or.inl ⟨fun _ hid => hid, List.nil_sublist _⟩
  | _ => exact Or.inl ⟨fun _ hid => hid, List.Sublist.refl _⟩

theorem Moves.settings (h : p.Moves a p') :
    (p'.mgr.limits = p.mgr.limits ∧ p'.mgr.recovery = p.mgr.recovery) ∨
      ∃ workers recovery limits, a = .reload workers recovery limits ∧
        p'.mgr.limits = limits ∧ p'.mgr.recovery = recovery := by
  cases h with
  | reload => exact Or.inr ⟨_, _, _, rfl, rfl, rfl⟩
  | stop =>
    unfold Process.stop
    split <;> exact Or.inl ⟨rfl, rfl⟩
  | _ => exact Or.inl ⟨rfl, rfl⟩

theorem Moves.started (h : p.Moves a p') (h1 : a ≠ .stop) (h2 : a ≠ .stopped) :
    p'.mgr.started = p.mgr.started ∧ p'.mgr.gathering = p.mgr.gathering := by
  cases h with
  | stop => exact absurd rfl h1
  | stopped => exact absurd rfl h2
  | _ => exact ⟨rfl, rfl⟩

theorem Moves.activeCount (hi : p.Inv) (h : p.Moves a p') :
    p'.mgr.activeCount ≤ p.mgr.activeCount ∨
      ((∃ request taskId now task, a = .call request taskId now ∧
        Accepts p p' request taskId task) ∧ p'.mgr.activeCount ≤ p.mgr.activeCount + 1) := by
  have hdone : ∀ e ∈ p.mgr.background, (!p'.mgr.done e.2) = true → (!p.mgr.done e.2) = true := by
    intro e he hd
    obtain ⟨k, hk, -⟩ := hi.coherent.entry e he
    obtain ⟨k', hk', hmove⟩ := h.handle hk
    unfold Manager.done at hd ⊢
    rw [hk'] at hd
    rw [hk]
    simp only [Bool.not_eq_true'] at hd ⊢
    exact hmove.done hd
  have hsame : p.mgr.background.countP (fun e => !p'.mgr.done e.2) ≤ p.mgr.activeCount :=
    List.countP_mono_left hdone
  rcases h.accepts hi with ⟨-, hsub⟩ | ⟨request, taskId, now, task, ha, hacc⟩
  · exact Or.inl (hsub.countP_le.trans hsame)
  · refine Or.inr ⟨⟨request, taskId, now, task, ha, hacc⟩, ?_⟩
    unfold Manager.activeCount at hsame ⊢
    rw [hacc.background', List.countP_append, List.countP_singleton]
    split <;> omega

end Process

theorem World.Marks.edit {w w' : World} (h : w.Marks w') (id : String) :
    w'.store.get id = w.store.get id ∨ ∃ r now, w.store.get id = some r ∧
      w'.store.get id = some (Store.markRecovering r now) ∧ r.state ∉ terminalStates ∧
      r.state ≠ pending := by
  cases h with
  | @mk now r store hrow hlive hs hstore =>
    have hset : RowSet w.store.get store.get r.taskId (Store.markRecovering r now) :=
      RowSet.of_upsert hrow rfl rfl hstore
    by_cases hid : id = r.taskId
    · subst hid
      exact Or.inr ⟨r, now, hrow, hset.self, hlive, hs⟩
    · exact Or.inl (hset.other hid)

theorem World.Marks.row {w w' : World} (h : w.Marks w') (id : String) :
    w'.store.get id = w.store.get id ∨ ∃ r r', w.store.get id = some r ∧
      w'.store.get id = some r' ∧ r.state ∉ terminalStates ∧ r.state ≠ pending ∧
      r'.state = recovering ∧ r'.idempotencyKey = r.idempotencyKey ∧ r'.workerId = r.workerId := by
  rcases h.edit id with hsame | ⟨r, now, hrow, hrow', hlive, hs⟩
  · exact Or.inl hsame
  · exact Or.inr ⟨r, _, hrow, hrow', hlive, hs, rfl, rfl, rfl⟩

end WorkerBridge
