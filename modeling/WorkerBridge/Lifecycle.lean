import WorkerBridge.History
import WorkerBridge.Induction

namespace WorkerBridge

open TaskState

def RowStep (r r' : TaskRecord) : Prop :=
  r' = r ∨ (r.state ∉ terminalStates ∧ r'.state = r.state) ∨
    r'.state ∈ allowedTransitions r.state

theorem RowStep.state {r r' : TaskRecord} (h : RowStep r r') :
    r.state = r'.state ∨ r'.state ∈ allowedTransitions r.state := by
  rcases h with rfl | ⟨-, he⟩ | ht
  · exact Or.inl rfl
  · exact Or.inl he.symm
  · exact Or.inr ht

theorem RowStep.terminal {r r' : TaskRecord} (h : RowStep r r') (ht : r.state ∈ terminalStates) :
    r' = r := by
  rcases h with rfl | ⟨hn, -⟩ | hmem
  · rfl
  · exact absurd ht hn
  · rw [allowedTransitions_of_terminal ht] at hmem
    cases hmem

namespace Store

def Evolves (st st' : Store) : Prop :=
  ∀ id r, st.get id = some r → ∃ r', st'.get id = some r' ∧ RowStep r r'

/-- The terminal rows of `st` are rows of `st'`, column for column. -/
def KeepsTerminal (st st' : Store) : Prop :=
  ∀ id r, st.get id = some r → r.state ∈ terminalStates → st'.get id = some r

instance : Trans KeepsTerminal KeepsTerminal KeepsTerminal where
  trans h h' := fun id r hr ht => h' id r (h id r hr ht) ht

variable {st st' : Store} {id : String} {r r' : TaskRecord}

theorem Evolves.keepsTerminal (h : Evolves st st') : KeepsTerminal st st' := by
  intro id r hr ht
  obtain ⟨r', hr', hstep⟩ := h id r hr
  rw [hr', hstep.terminal ht]

theorem Evolves.of_set (hset : RowSet st.get st'.get id r') (hrow : st.get id = some r)
    (hstep : RowStep r r') : Evolves st st' := by
  intro k s hs
  by_cases hk : k = id
  · subst hk
    rw [hrow] at hs
    cases hs
    exact ⟨r', hset.self, hstep⟩
  · exact ⟨s, by rw [hset.other hk, hs], Or.inl rfl⟩

theorem Evolves.of_new (hset : RowSet st.get st'.get id r') (hfresh : st.get id = none) :
    Evolves st st' := by
  intro k s hs
  have hk : k ≠ id := by
    intro he
    rw [he, hfresh] at hs
    cases hs
  exact ⟨s, by rw [hset.other hk, hs], Or.inl rfl⟩

end Store

def World.history (w : World) : List Store := w.versions.reverse

/-- Each content of the database evolves from the one before. -/
def World.Chained (w : World) : Prop := w.history.IsChain Store.Evolves

theorem World.Chained.write {w : World} {store : Store} (h : w.Chained)
    (he : w.store.Evolves store) : (w.write store).Chained := by
  unfold Chained history at *
  rw [List.isChain_reverse] at *
  exact List.isChain_cons_cons.mpr ⟨he, h⟩

theorem World.Marks.chained {w w' : World} (hs : Sound w.store.get) (hd : w.Chained)
    (h : w.Marks w') : w'.Chained := by
  cases h with
  | @mk now r store hrow hlive hp hstore =>
    have hset : RowSet w.store.get store.get r.taskId (Store.markRecovering r now) :=
      RowSet.of_upsert hrow rfl rfl hstore
    refine hd.write (.of_set hset hrow ?_)
    have hn := hs.notRetrying _ _ hrow
    by_cases hr : r.state = recovering
    · exact Or.inr (Or.inl ⟨hlive, hr.symm⟩)
    · refine Or.inr (Or.inr ?_)
      show recovering ∈ allowedTransitions r.state
      revert hlive hp hn hr
      cases r.state <;> decide

theorem running_mem_of_queued {s : TaskState} (h : s ∈ queuedStates) :
    running ∈ allowedTransitions s := by
  revert h
  cases s <;> decide

theorem Process.Moves.chained {p p' : Process} {a : Action} (hd : p.world.Chained)
    (h : p.Moves a p') : p'.world.Chained := by
  cases h with
  | idle => exact hd
  | replay => exact hd
  | @accept request taskId now directory timeout task store hfresh htask _ hstore =>
    have hset : RowSet p.row store.get taskId task :=
      RowSet.of_insert (congrArg TaskRecord.taskId htask) hstore
    exact hd.write (.of_new hset hfresh)
  | cancel hrow hlive hstore =>
    have hset := Process.rowSet hstore hrow rfl rfl
    exact hd.write (.of_set hset hrow (Or.inr (Or.inr (cancelled_mem_of_not_terminal hlive))))
  | sleep => exact hd
  | attempt _ _ _ hrow hs hstore =>
    have hset := Process.rowSet hstore hrow rfl rfl
    exact hd.write (.of_set hset hrow (Or.inr (Or.inr (running_mem_of_queued hs))))
  | quit => exact hd
  | @settle _ _ _ _ r target _ _ _ _ _ hrow hs ht hstore =>
    have hset := Process.rowSet hstore hrow rfl rfl
    refine hd.write (.of_set hset hrow (Or.inr (Or.inr ?_)))
    have hmem : ∀ s ∈ [completed, failed, timedOut], s ∈ allowedTransitions running := by decide
    rw [hs]
    exact hmem target ht
  | abandon _ _ _ hrow hlive hstore =>
    have hset := Process.rowSet hstore hrow rfl rfl
    exact hd.write (.of_set hset hrow (Or.inr (Or.inr (cancelled_mem_of_not_terminal hlive))))
  | callback => exact hd
  | stop => exact (Process.stop_world p).symm ▸ hd
  | stopped => exact hd
  | reload => exact hd

theorem chained_rule : Rule Allowed.any World.Chained fun p => p.world.Chained where
  empty := List.isChain_singleton _
  mark hs hd hm := hm.chained hs hd
  boot := by
    intro w settings ready p _ _ hd hb
    rw [hb.world]
    exact hd
  move _ _ hu hm := hm.chained hu
  world _ hu := hu
  forget hd _ _ := hd

theorem chained_of_reachable {host : Host} {b : Bridge}
    (h : (Bridge.machine host).Reachable Runs.anyStep b) : b.world.Chained := by
  have hb := chained_rule.holds (h.mono fun _ _ _ => Allowed.any_ok)
  cases b with
  | down w => exact hb.2
  | up p => exact hb.2

theorem World.crashed_suffix {w w' w'' : World} {lost : ℕ}
    (hw : (w'.past = w.past ∧ w'.store = w.store) ∨ w'.past = w.store :: w.past)
    (h : w.crashed w' lost = some w'') : w.versions <:+ w''.versions := by
  rcases hw with ⟨hp, hs⟩ | hp
  · rw [World.crashed_same hp hs h]
  · rcases World.crashed_write hp h with rfl | rfl
    · exact List.suffix_rfl
    · exact List.suffix_cons _ _

theorem World.MarksMany.suffix {w w' : World} (h : w.MarksMany w') :
    w.versions <:+ w'.versions := by
  induction h with
  | refl => exact List.suffix_rfl
  | tail _ hm ih =>
    refine ih.trans ?_
    cases hm
    exact List.suffix_cons _ _

theorem Bridge.step_suffix {host : Host} {b b' : Bridge} {e : Event}
    (hi : b.Holds (fun _ => True) Process.Inv) (h : b.step host e = some b') :
    b.world.versions <:+ b'.world.versions := by
  have hwrites : ∀ w w' : World,
      ((w'.past = w.past ∧ w'.store = w.store) ∨ w'.past = w.store :: w.past) →
      w.versions <:+ w'.versions := by
    intro w w' hw
    unfold World.versions
    rcases hw with ⟨hp, hs⟩ | hp
    · rw [hp, hs]
    · rw [hp]
      exact List.suffix_cons _ _
  cases step_steps h with
  | started w settings now p hp =>
    obtain ⟨w', ready, hmarks, hboot⟩ := started_booted hp
    refine hmarks.suffix.trans ?_
    show w'.versions <:+ p.world.versions
    rw [hboot.world]
    exact List.suffix_rfl
  | startCrashed w settings now lost p w'' hp hc =>
    obtain ⟨w', ready, hmarks, hboot⟩ := started_booted hp
    rw [hboot.world] at hc
    exact (World.crashed_marks hmarks hc).suffix
  | acted p a p' hp => exact hwrites _ _ (Process.act_moves hi hp).extends.writes
  | actCrashed p a lost p' w hp hc =>
    exact World.crashed_suffix (Process.act_moves hi hp).extends.writes hc
  | crashed p => exact List.suffix_rfl

theorem history_prefix {host : Host} {b b' : Bridge}
    (h : (Bridge.machine host).Reachable Runs.anyStep b)
    (hl : (Bridge.machine host).Leads Runs.anyStep b b') :
    b.world.history <+: b'.world.history := by
  have hboth : (Bridge.machine host).Reachable Runs.anyStep b' ∧
      b.world.versions <:+ b'.world.versions := by
    refine Runs.Machine.Leads.invariant (I := fun s => (Bridge.machine host).Reachable Runs.anyStep s ∧
      b.world.versions <:+ s.world.versions) hl ⟨h, List.suffix_rfl⟩ ?_
    intro s e s' hok hs hstep
    refine ⟨hs.1.next hok hstep, hs.2.trans (Bridge.step_suffix ?_ hstep)⟩
    have hh := chained_rule.holds (hs.1.mono fun _ _ _ => Allowed.any_ok)
    cases s with
    | down w => trivial
    | up p => exact hh.1
  unfold World.history
  rw [List.reverse_prefix]
  exact hboth.2

/-- Over every run the states of a task form a path of the state machine, and a
terminal row never changes again. -/
theorem terminal_absorbing {host : Host} {b b' : Bridge}
    (h : (Bridge.machine host).Reachable Runs.anyStep b)
    (hl : (Bridge.machine host).Leads Runs.anyStep b b') :
    (∀ id, ((b'.world.history.filterMap fun st => (st.get id).map TaskRecord.state).destutter
      (· ≠ ·)).IsChain fun s t => t ∈ allowedTransitions s) ∧
    b'.world.history.Pairwise Store.KeepsTerminal ∧
    b.world.history <+: b'.world.history ∧
    b.world.store.KeepsTerminal b'.world.store := by
  have hchain : b'.world.history.IsChain Store.Evolves := chained_of_reachable (h.leads hl)
  have hpair : b'.world.history.Pairwise Store.KeepsTerminal :=
    (hchain.imp fun _ _ he => he.keepsTerminal).pairwise
  have hprefix := history_prefix h hl
  refine ⟨?_, hpair, hprefix, ?_⟩
  · -- A row that is there stays there, in the same state or the next.
    intro id
    apply History.isChain_destutter
    refine History.isChain_filterMap ?_ hchain
    intro st st' s hstep hs
    obtain ⟨r, hr, rfl⟩ := Option.map_eq_some_iff.mp hs
    obtain ⟨r', hr', hrow⟩ := hstep id r hr
    exact ⟨r'.state, by rw [hr']; rfl, hrow.state⟩
  · have hsuffix : b.world.versions <:+ b'.world.versions := by
      unfold World.history at hprefix
      rwa [List.reverse_prefix] at hprefix
    -- The old content is the new one, or a member of its past.
    obtain ⟨new, hnew⟩ := hsuffix
    cases new with
    | nil =>
      have hst : b.world.store = b'.world.store := (List.cons.inj hnew).1
      intro id r hr _
      rw [← hst, hr]
    | cons st rest =>
      obtain ⟨rfl, hrest⟩ := List.cons.inj hnew
      unfold World.history World.versions at hpair
      rw [List.pairwise_reverse, List.pairwise_cons] at hpair
      apply hpair.1
      rw [← hrest]
      exact List.mem_append_right _ List.mem_cons_self

/-- A task that completes, and a crash and a restart after it. -/
theorem terminal_absorbing_completed : ∃ b b' : Bridge,
    (b.world.store.get "a").map TaskRecord.state = some completed ∧
      b.world.store.KeepsTerminal b'.world.store ∧ b'.world.lifetimes = 2 := by
  obtain ⟨s, s', hs, hl, hp⟩ := Runs.Machine.exists_leads_of_run
    (Bridge.machine Sample.host) Runs.anyStep
    [.start (Sample.settings .always 0) "t0", Sample.call "a" none,
      .act (.resume 0 "r" "t1"), .act (.workerReturned 0 (.str []) "t2")]
    [.crash, .start (Sample.settings .always 0) "t3"]
    (fun b b' => decide ((b.world.store.get "a").map TaskRecord.state = some completed) &&
      decide (b'.world.lifetimes = 2))
    (by decide)
  rw [Bool.and_eq_true, decide_eq_true_iff, decide_eq_true_iff] at hp
  exact ⟨s, s', hp.1, (terminal_absorbing hs hl).2.2.2, hp.2⟩

end WorkerBridge
