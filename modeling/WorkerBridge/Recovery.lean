import WorkerBridge.Preservation

namespace WorkerBridge

open TaskState

/-- The row `mark_recovering` returns for a row it has read. -/
def marked (now : String) (task : TaskRecord) : TaskRecord :=
  if task.state = pending then task else Store.markRecovering task now

@[simp] theorem marked_taskId (now : String) (task : TaskRecord) :
    (marked now task).taskId = task.taskId := by
  unfold marked
  split <;> rfl

/-- One write of `mark_recovering`. -/
inductive World.Marks (w : World) : World → Prop
  | mk {now : String} {r : TaskRecord} {store : Store} (hrow : w.store.get r.taskId = some r)
      (hlive : r.state ∉ terminalStates) (hs : r.state ≠ pending)
      (hstore : w.store.upsert (Store.markRecovering r now) = .ok store) : Marks w (w.write store)

abbrev World.MarksMany : World → World → Prop := Relation.ReflTransGen World.Marks

namespace World

variable {w w' w'' : World}

theorem markRecovering_ok (now : String) (tasks : List TaskRecord) (w : World)
    (hnodup : (tasks.map TaskRecord.taskId).Nodup)
    (hrows : ∀ t ∈ tasks, w.store.get t.taskId = some t ∧ t.state ∉ terminalStates) :
    ∃ w', w.markRecovering now tasks = .ok (w', tasks.map (marked now)) ∧ w.MarksMany w' ∧
      (∀ t ∈ tasks, w'.store.get t.taskId = some (marked now t)) ∧
      ∀ id, id ∉ tasks.map TaskRecord.taskId → w'.store.get id = w.store.get id := by
  -- On the rows that were read; a write leaves the rows still to come alone.
  induction tasks generalizing w with
  | nil =>
    refine ⟨w, by rw [markRecovering, List.map_nil], Relation.ReflTransGen.refl, ?_, fun _ _ => rfl⟩
    intro t ht
    cases ht
  | cons task rest ih =>
    rw [List.map_cons, List.nodup_cons] at hnodup
    obtain ⟨hnew, hnodup⟩ := hnodup
    obtain ⟨hrow, hlive⟩ := hrows task List.mem_cons_self
    have hother : ∀ t ∈ rest, t.taskId ≠ task.taskId := by
      intro t ht he
      exact hnew (List.mem_map.mpr ⟨t, ht, he⟩)
    by_cases hp : task.state = pending
    · obtain ⟨w', hloop, hmarks, hin, hout⟩ := ih w hnodup
        fun t ht => hrows t (List.mem_cons_of_mem _ ht)
      have hm : marked now task = task := if_pos hp
      refine ⟨w', ?_, hmarks, ?_, ?_⟩
      · simp only [markRecovering, if_pos hp, hloop, List.map_cons, hm]
        rfl
      · intro t ht
        rcases List.mem_cons.mp ht with rfl | ht
        · rw [hout _ hnew, hm, hrow]
        · exact hin t ht
      · intro id hid
        rw [List.map_cons, List.mem_cons, not_or] at hid
        exact hout id hid.2
    · have hm : marked now task = Store.markRecovering task now := if_neg hp
      have hrow' : w.store.get (Store.markRecovering task now).taskId = some task := hrow
      obtain ⟨store, hstore⟩ := Store.upsert_isOk hrow' rfl
      have hset : RowSet w.store.get store.get task.taskId (Store.markRecovering task now) :=
        RowSet.of_upsert hrow' rfl rfl hstore
      obtain ⟨w', hloop, hmarks, hin, hout⟩ := ih (w.write store) hnodup (by
        intro t ht
        obtain ⟨htrow, htlive⟩ := hrows t (List.mem_cons_of_mem _ ht)
        refine ⟨?_, htlive⟩
        show store.get t.taskId = some t
        rw [hset.other (hother t ht), htrow])
      have hup : w.upsert (Store.markRecovering task now) = .ok (w.write store) := by
        unfold upsert
        rw [hstore]
        rfl
      refine ⟨w', ?_, Relation.ReflTransGen.head (.mk hrow hlive hp hstore) hmarks, ?_, ?_⟩
      · simp only [markRecovering, if_neg hp, hup, bind, Except.bind, hloop, List.map_cons, hm]
      · intro t ht
        rcases List.mem_cons.mp ht with rfl | ht
        · rw [hout _ hnew, hm]
          exact hset.self
        · exact hin t ht
      · intro id hid
        rw [List.map_cons, List.mem_cons, not_or] at hid
        rw [hout id hid.2]
        exact hset.other hid.1

theorem crashed_same (hp : w'.past = w.past) (hs : w'.store = w.store) {lost : ℕ}
    (h : w.crashed w' lost = some w'') : w'' = w := by
  obtain ⟨hle, store, past, hdrop, rfl⟩ := crashed_eq_some.mp h
  rw [hp] at hle
  obtain rfl : lost = 0 := by omega
  rw [List.drop_zero, versions, hp, hs] at hdrop
  obtain ⟨rfl, rfl⟩ := List.cons.inj hdrop
  rfl

theorem crashed_write (hp : w'.past = w.store :: w.past) {lost : ℕ}
    (h : w.crashed w' lost = some w'') : w'' = w ∨ w'' = w.write w'.store := by
  obtain ⟨hle, store, past, hdrop, rfl⟩ := crashed_eq_some.mp h
  rw [hp, List.length_cons] at hle
  have hl : lost = 0 ∨ lost = 1 := by omega
  rcases hl with rfl | rfl
  · rw [List.drop_zero, versions, hp] at hdrop
    obtain ⟨rfl, rfl⟩ := List.cons.inj hdrop
    exact Or.inr rfl
  · rw [versions, List.drop_succ_cons, List.drop_zero, hp] at hdrop
    obtain ⟨rfl, rfl⟩ := List.cons.inj hdrop
    exact Or.inl rfl

theorem Marks.frame (h : w.Marks w') :
    w'.past = w.store :: w.past ∧ w'.lifetimes = w.lifetimes ∧ w'.calls = w.calls ∧
      w'.answers = w.answers := by
  cases h
  exact ⟨rfl, rfl, rfl, rfl⟩

theorem MarksMany.frame (h : w.MarksMany w') :
    w'.lifetimes = w.lifetimes ∧ w'.calls = w.calls ∧ w'.answers = w.answers := by
  induction h with
  | refl => exact ⟨rfl, rfl, rfl⟩
  | tail _ hm ih =>
    obtain ⟨-, hl, hc, ha⟩ := hm.frame
    exact ⟨hl.trans ih.1, hc.trans ih.2.1, ha.trans ih.2.2⟩

theorem crashed_marks (h : w.MarksMany w') {lost : ℕ} (hc : w.crashed w' lost = some w'') :
    w.MarksMany w'' := by
  induction h generalizing lost with
  | refl => exact crashed_same rfl rfl hc ▸ Relation.ReflTransGen.refl
  | @tail v w' hv hm ih =>
    obtain ⟨hpast, -⟩ := hm.frame
    have hframe := MarksMany.frame (Relation.ReflTransGen.tail hv hm)
    -- Nothing lost keeps the last write; otherwise the run without it loses one less.
    obtain ⟨hle, store, past, hdrop, rfl⟩ := crashed_eq_some.mp hc
    cases lost with
    | zero =>
      rw [List.drop_zero, versions] at hdrop
      obtain ⟨rfl, rfl⟩ := List.cons.inj hdrop
      have hw : { w with store := w'.store, past := w'.past } = w' := by
        cases w'
        simp only at hframe
        simp only [hframe]
      rw [hw]
      exact Relation.ReflTransGen.tail hv hm
    | succ k =>
      rw [versions, List.drop_succ_cons, hpast] at hdrop
      rw [hpast, List.length_cons] at hle
      exact ih (crashed_eq_some.mpr ⟨by omega, store, past, hdrop, rfl⟩)

end World

/-- `p` is what `start` makes of `w`, a database whose interrupted rows are
marked.  `ready` are the tasks it schedules. -/
structure Booted (w : World) (settings : Settings) (ready : List TaskRecord) (p : Process) :
    Prop where
  world : p.world = { w with lifetimes := w.lifetimes + 1 }
  quiet : ∀ id r, w.store.get id = some r → r.state ∈ terminalStates ∨ r.state ∈ queuedStates
  nodup : (ready.map TaskRecord.taskId).Nodup
  mem : ∀ t, t ∈ ready ↔
    w.store.get t.taskId = some t ∧ Process.startSchedules settings.recovery t = true
  mgr : p.mgr = { Manager.new settings.workers settings.recovery settings.limits with
    started := true
    handles := ready.map fun t => ⟨t.taskId, .created, false⟩
    background := ready.zipIdx.map fun e => (e.1.taskId, e.2) }

theorem foldl_schedule (ready : List TaskRecord) (m : Manager)
    (hnodup : (ready.map TaskRecord.taskId).Nodup)
    (hnew : ∀ t ∈ ready, m.backgroundGet t.taskId = none) :
    ready.foldl Manager.schedule m = { m with
      handles := m.handles ++ ready.map fun t => ⟨t.taskId, .created, false⟩
      background := m.background ++
        (ready.zipIdx m.handles.length).map fun e => (e.1.taskId, e.2) } := by
  induction ready generalizing m with
  | nil => simp
  | cons task rest ih =>
    rw [List.map_cons, List.nodup_cons] at hnodup
    have htask := hnew task List.mem_cons_self
    rw [List.foldl_cons, Process.schedule_of_get_none htask, ih _ hnodup.2]
    · rw [Coherent.track_background htask]
      simp [Manager.track]
    · intro t ht
      have hne : task.taskId ≠ t.taskId := by
        intro he
        exact hnodup.1 (List.mem_map.mpr ⟨t, ht, he.symm⟩)
      have hold := hnew t (List.mem_cons_of_mem _ ht)
      unfold Manager.backgroundGet at hold ⊢
      rw [Coherent.track_background htask, Table.find_append]
      simp only [Option.map_eq_none_iff] at hold ⊢
      rw [hold, if_neg hne]
      rfl

theorem mem_recoverable {w : World} (t : TaskRecord) :
    t ∈ w.store.listByStates Store.recoverableStates ↔
      w.store.get t.taskId = some t ∧ t.state ∉ terminalStates := by
  unfold Store.listByStates
  rw [List.mem_filter, decide_eq_true_iff, Store.mem_recoverableStates]
  constructor
  · intro ht
    exact ⟨Store.get_of_mem ht.1, ht.2⟩
  · intro ht
    exact ⟨(Store.mem_of_get ht.1).1, ht.2⟩

theorem recoverable_nodup (w : World) :
    ((w.store.listByStates Store.recoverableStates).map TaskRecord.taskId).Nodup :=
  Table.distinct_iff_nodup.mp (w.store.distinct.filter _)

theorem exists_start (w : World) (settings : Settings) (now : String) :
    ∃ p, Process.start w settings.workers settings.recovery settings.limits now = .ok p := by
  obtain ⟨w', hloop, -⟩ := World.markRecovering_ok now _ w (recoverable_nodup w)
    fun t ht => (mem_recoverable t).mp ht
  unfold Process.start
  rw [hloop]
  exact ⟨_, rfl⟩

theorem started_booted {w : World} {settings : Settings} {now : String} {p : Process}
    (h : Bridge.started w settings now = some p) :
    ∃ w' ready, w.MarksMany w' ∧ Booted w' settings ready p := by
  have hmem := fun t => mem_recoverable (w := w) t
  have hnodup := recoverable_nodup w
  obtain ⟨w', hloop, hmarks, hin, hout⟩ := World.markRecovering_ok now _ w hnodup
    fun t ht => (hmem t).mp ht
  generalize hlist : w.store.listByStates Store.recoverableStates = tasks at *
  have hup : Process.start w settings.workers settings.recovery settings.limits now =
      .ok ⟨{ w' with lifetimes := w'.lifetimes + 1 },
        ((tasks.map (marked now)).filter (Process.startSchedules settings.recovery)).foldl
          Manager.schedule { Manager.new settings.workers settings.recovery settings.limits with
            started := true }⟩ := by
    unfold Process.start
    rw [hlist, hloop]
    rfl
  unfold Bridge.started at h
  rw [hup] at h
  cases h
  have hids : (tasks.map (marked now)).map TaskRecord.taskId = tasks.map TaskRecord.taskId := by
    rw [List.map_map]
    exact List.map_congr_left fun t _ => marked_taskId now t
  have hready : (((tasks.map (marked now)).filter
      (Process.startSchedules settings.recovery)).map TaskRecord.taskId).Nodup :=
    (hids ▸ hnodup).sublist (List.filter_sublist.map _)
  -- A row that was not read is as before, and terminal.
  have hrest : ∀ id r, w'.store.get id = some r → r.state ∈ terminalStates ∨
      ∃ t ∈ tasks, r = marked now t := by
    intro id r hr
    by_cases hid : id ∈ tasks.map TaskRecord.taskId
    · obtain ⟨t, ht, rfl⟩ := List.mem_map.mp hid
      rw [hin t ht] at hr
      cases hr
      exact Or.inr ⟨t, ht, rfl⟩
    · rw [hout id hid] at hr
      by_cases hterm : r.state ∈ terminalStates
      · exact Or.inl hterm
      · have hrid := Store.taskId_of_get hr
        subst hrid
        exact absurd (List.mem_map.mpr ⟨r, (hmem r).mpr ⟨hr, hterm⟩, rfl⟩) hid
  refine ⟨w', _, hmarks, rfl, ?_, hready, ?_, ?_⟩
  · intro id r hr
    rcases hrest id r hr with hterm | ⟨t, ht, rfl⟩
    · exact Or.inl hterm
    · refine Or.inr ?_
      unfold marked
      split
      · next hp => rw [hp]; decide
      · exact (by decide : recovering ∈ queuedStates)
  · intro t
    rw [List.mem_filter]
    constructor
    · intro ⟨ht, hs⟩
      obtain ⟨u, hu, rfl⟩ := List.mem_map.mp ht
      exact ⟨by rw [marked_taskId]; exact hin u hu, hs⟩
    · intro ⟨ht, hs⟩
      refine ⟨?_, hs⟩
      rcases hrest _ _ ht with hterm | ⟨u, hu, rfl⟩
      · unfold Process.startSchedules at hs
        simp [hterm] at hs
      · exact List.mem_map.mpr ⟨u, hu, rfl⟩
  · rw [foldl_schedule _ _ hready (fun _ _ => rfl)]
    rfl

namespace Booted

variable {w : World} {settings : Settings} {ready : List TaskRecord} {p : Process}

theorem at_iff (hb : Booted w settings ready p) {i : ℕ} {h : Handle} :
    p.mgr.handles[i]? = some h ↔ ∃ t, ready[i]? = some t ∧ h = ⟨t.taskId, .created, false⟩ := by
  rw [hb.mgr]
  simp only [List.getElem?_map, Option.map_eq_some_iff]
  constructor
  · rintro ⟨t, ht, rfl⟩
    exact ⟨t, ht, rfl⟩
  · rintro ⟨t, ht, rfl⟩
    exact ⟨t, ht, rfl⟩

theorem background_iff (hb : Booted w settings ready p) {id : String} {i : ℕ} :
    (id, i) ∈ p.mgr.background ↔ ∃ t, ready[i]? = some t ∧ t.taskId = id := by
  rw [hb.mgr]
  simp only [List.mem_map, Prod.mk.injEq, Prod.exists, List.mem_zipIdx_iff_getElem?]
  constructor
  · rintro ⟨t, j, hj, rfl, rfl⟩
    exact ⟨t, hj, rfl⟩
  · rintro ⟨t, hj, rfl⟩
    exact ⟨t, i, hj, rfl, rfl⟩

theorem row (hb : Booted w settings ready p) : p.row = w.store.get := by
  unfold Process.row
  rw [hb.world]

theorem inv (hb : Booted w settings ready p) (hs : Sound w.store.get) : p.Inv := by
  have hquiet : ∀ id r, w.store.get id = some r → r.state ≠ running := by
    intro id r hr he
    have hq := hb.quiet id r hr
    rw [he] at hq
    revert hq
    decide
  have hready : ∀ {i : ℕ} {t : TaskRecord}, ready[i]? = some t →
      w.store.get t.taskId = some t ∧ Process.startSchedules settings.recovery t = true := by
    intro i t ht
    exact (hb.mem t).mp (List.mem_of_getElem? ht)
  refine ⟨hb.row ▸ hs, ?_⟩
  rw [hb.row]
  refine ⟨?_, ?_, ?_, ?_, ?_, ?_, ?_⟩
  · intro i j h k hi hj he
    obtain ⟨t, ht, rfl⟩ := hb.at_iff.mp hi
    obtain ⟨u, hu, rfl⟩ := hb.at_iff.mp hj
    have hids : (ready.map TaskRecord.taskId)[i]? = (ready.map TaskRecord.taskId)[j]? := by
      rw [List.getElem?_map, List.getElem?_map, ht, hu]
      exact congrArg some he
    refine (List.getElem?_inj ?_ hb.nodup).mp hids
    rw [List.length_map]
    exact (List.getElem?_eq_some_iff.mp ht).1
  · intro i h hi
    obtain ⟨t, ht, rfl⟩ := hb.at_iff.mp hi
    obtain ⟨hr, -⟩ := hready ht
    exact ⟨t, hr, hquiet _ _ hr⟩
  · rw [Table.distinct_iff_nodup, hb.mgr]
    have hfst : (ready.zipIdx.map fun e => (e.1.taskId, e.2)).map Prod.fst =
        ready.map TaskRecord.taskId := by
      rw [List.map_map, ← List.zipIdx_map_fst 0 ready, List.map_map]
      simp [Function.comp_def]
    exact hfst ▸ hb.nodup
  · rintro ⟨id, i⟩ he
    obtain ⟨t, ht, rfl⟩ := hb.background_iff.mp he
    exact ⟨_, hb.at_iff.mpr ⟨t, ht, rfl⟩, rfl⟩
  · intro id r hr hs
    exact absurd hs (hquiet id r hr)
  · intro i h r hi _ _ _
    obtain ⟨t, ht, rfl⟩ := hb.at_iff.mp hi
    refine ⟨hb.background_iff.mpr ⟨t, ht, rfl⟩, ?_⟩
    intro gathered hg
    rw [hb.mgr] at hg
    cases hg
  · intro _ _
    refine ⟨?_, ?_, ?_⟩
    · intro i h hi _
      obtain ⟨t, ht, rfl⟩ := hb.at_iff.mp hi
      exact hb.background_iff.mpr ⟨t, ht, rfl⟩
    · intro i h r hi _ hreq
      obtain ⟨t, ht, rfl⟩ := hb.at_iff.mp hi
      cases hreq
    · intro id r hr hp
      have hid := Store.taskId_of_get hr
      subst hid
      have hin : r ∈ ready := by
        refine (hb.mem r).mpr ⟨hr, ?_⟩
        unfold Process.startSchedules
        rw [hp]
        rfl
      obtain ⟨i, hi⟩ := List.getElem?_of_mem hin
      exact ⟨i, _, hb.at_iff.mpr ⟨r, hi, rfl⟩, rfl, rfl⟩

end Booted

end WorkerBridge
