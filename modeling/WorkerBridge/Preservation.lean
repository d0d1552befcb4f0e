import WorkerBridge.Steps

namespace WorkerBridge

open TaskState

variable {row row' : String → Option TaskRecord} {m m' : Manager} {r r' : TaskRecord}
  {taskId : String} {i : ℕ} {h : Handle}

/-- `row'` differs from `row` in one row at most. -/
def RowSet (row row' : String → Option TaskRecord) (taskId : String) (r' : TaskRecord) : Prop :=
  ∀ id, row' id = if id = taskId then some r' else row id

theorem RowSet.self (hr : RowSet row row' taskId r') : row' taskId = some r' := by
  rw [hr taskId, if_pos rfl]

theorem RowSet.other (hr : RowSet row row' taskId r') {id : String} (hne : id ≠ taskId) :
    row' id = row id := by
  rw [hr id, if_neg hne]

theorem RowSet.same (hrow : row taskId = some r) : RowSet row row taskId r := by
  intro id
  split
  · next he => rw [he, hrow]
  · rfl

theorem RowSet.of_upsert {st st' : Store} {task old : TaskRecord} (hold : st.get taskId = some old)
    (hid : task.taskId = taskId) (hc : task.createdAt = old.createdAt)
    (hs : st.upsert task = .ok st') : RowSet st.get st'.get taskId task := by
  subst hid
  exact Store.get_upsert hold hc hs

theorem RowSet.of_insert {st st' : Store} {task : TaskRecord} (hid : task.taskId = taskId)
    (hs : st.insert task = .ok st') : RowSet st.get st'.get taskId task := by
  subst hid
  exact Store.get_insert hs

theorem Sound.set (hs : Sound row) (hr : RowSet row row' taskId r')
    (hb : r'.workingDirectory ≠ none) (hn : r'.state ≠ retrying) : Sound row' := by
  have hboth : ∀ id s, row' id = some s → s.workingDirectory ≠ none ∧ s.state ≠ retrying := by
    intro id s hid
    rw [hr id] at hid
    split at hid
    · cases hid
      exact ⟨hb, hn⟩
    · exact ⟨hs.bound id s hid, hs.notRetrying id s hid⟩
  exact ⟨fun id s hid => (hboth id s hid).1, fun id s hid => (hboth id s hid).2⟩

theorem agrees_of_terminal (ht : r.state ∈ terminalStates)
    (hs : ∀ task, h.phase = .sleeping task → h.cancelRequested = true) : h.Agrees r := by
  have hne : r.state ≠ running := by
    intro he
    rw [he] at ht
    revert ht
    decide
  unfold Handle.Agrees
  split
  · exact hne
  · next task hph => exact Or.inr ⟨ht, hs task hph⟩
  · exact Or.inr ht
  · exact hne
  · exact hne

theorem Handle.cancel_taskId (h : Handle) : h.cancel.taskId = h.taskId := by
  unfold Handle.cancel
  split <;> rfl

theorem Handle.cancel_phase (h : Handle) : h.cancel.phase = h.phase := by
  unfold Handle.cancel
  split <;> rfl

theorem Handle.ite_cancel_taskId (h : Handle) (c : Prop) [Decidable c] :
    (if c then h.cancel else h).taskId = h.taskId := by
  split
  · exact h.cancel_taskId
  · rfl

theorem Handle.ite_cancel_phase (h : Handle) (c : Prop) [Decidable c] :
    (if c then h.cancel else h).phase = h.phase := by
  split
  · exact h.cancel_phase
  · rfl

theorem Handle.cancel_requested (hd : h.phase.done = false) : h.cancel.cancelRequested = true := by
  unfold Handle.cancel
  rw [if_neg (by simp [hd])]

theorem Handle.cancelRequested_cancel (hreq : h.cancelRequested = true) :
    h.cancel.cancelRequested = true := by
  unfold Handle.cancel
  split
  · exact hreq
  · rfl

theorem Handle.ite_cancel_requested (h : Handle) (c : Prop) [Decidable c]
    (hreq : h.cancelRequested = true) : (if c then h.cancel else h).cancelRequested = true := by
  split
  · exact h.cancelRequested_cancel hreq
  · exact hreq

theorem Handle.Agrees.cancel (ha : h.Agrees r) : h.cancel.Agrees r := by
  unfold Handle.Agrees at ha ⊢
  rw [Handle.cancel_phase]
  split at ha
  · exact ha
  · exact ha.imp_right fun hq => ⟨hq.1, h.cancelRequested_cancel hq.2⟩
  · exact ha
  · exact ha
  · exact ha

namespace Coherent

theorem congr (hc : Coherent row m) (hh : m'.handles = m.handles)
    (hb : m'.background = m.background) (hs : m'.started = m.started)
    (hg : m'.gathering = m.gathering) : Coherent row m' := by
  obtain ⟨hinj, hagree, hkeys, hentry, hrun, hrec, hlive⟩ := hc
  cases m
  cases m'
  simp only at hh hb hs hg
  subst hh hb hs hg
  refine ⟨hinj, hagree, hkeys, hentry, hrun, hrec, ?_⟩
  intro h1 h2
  obtain ⟨htracked, hasked, hheld⟩ := hlive h1 h2
  exact ⟨htracked, hasked, hheld⟩

theorem update {g : ℕ → Handle → Handle} (hc : Coherent row m)
    (hat : ∀ j, m'.handles[j]? = m.handles[j]?.map (g j))
    (hid : ∀ j k, (g j k).taskId = k.taskId) (hbg : m'.background = m.background)
    (hagree : ∀ (j : ℕ) (k : Handle) (s : TaskRecord), m.handles[j]? = some k →
      row k.taskId = some s → k.Agrees s → ∃ s', row' k.taskId = some s' ∧ (g j k).Agrees s')
    (hrun : ∀ id s', row' id = some s' → s'.state = running →
      ∃ (j : ℕ) (k : Handle), m.handles[j]? = some k ∧ k.taskId = id ∧ (g j k).phase = .calling)
    (hrec : ∀ (j : ℕ) (k : Handle) (s' : TaskRecord), m.handles[j]? = some k →
      (g j k).phase.done = false → row' k.taskId = some s' → s'.state = recovering →
        (k.taskId, j) ∈ m.background ∧ ∀ gathered ∈ m'.gathering, j ∈ gathered)
    (hlive : m'.started = true → m'.gathering = none → Live row' m') : Coherent row' m' where
  inj := by
    intro j j' k k' hj hj' he
    rw [hat] at hj hj'
    obtain ⟨l, hl, rfl⟩ := Option.map_eq_some_iff.mp hj
    obtain ⟨l', hl', rfl⟩ := Option.map_eq_some_iff.mp hj'
    rw [hid, hid] at he
    exact hc.inj j j' l l' hl hl' he
  agrees := by
    intro j k hj
    rw [hat] at hj
    obtain ⟨l, hl, rfl⟩ := Option.map_eq_some_iff.mp hj
    obtain ⟨s, hs, ha⟩ := hc.agrees j l hl
    rw [hid]
    exact hagree j l s hl hs ha
  keys := hbg ▸ hc.keys
  entry := by
    intro e he
    rw [hbg] at he
    obtain ⟨l, hl, hk⟩ := hc.entry e he
    exact ⟨g e.2 l, by rw [hat, hl]; rfl, by rw [hid]; exact hk⟩
  runningHeld := by
    intro id s' hs hr
    obtain ⟨j, k, hj, hk, hph⟩ := hrun id s' hs hr
    exact ⟨j, g j k, by rw [hat, hj]; rfl, by rw [hid]; exact hk, hph⟩
  recoveringTracked := by
    intro j k s' hj hd hs hr
    rw [hat] at hj
    obtain ⟨l, hl, rfl⟩ := Option.map_eq_some_iff.mp hj
    rw [hid] at hs ⊢
    rw [hbg]
    exact hrec j l s' hl hd hs hr
  live := hlive

theorem row_of_at (hc : Coherent row m) {j : ℕ} {k : Handle} (hj : m.handles[j]? = some k) :
    ∃ s, row k.taskId = some s := by
  obtain ⟨s, hs, -⟩ := hc.agrees j k hj
  exact ⟨s, hs⟩

theorem setPhase_at (m : Manager) (i j : ℕ) (phase : Phase) :
    (m.setPhase i phase).handles[j]? =
      m.handles[j]?.map fun k => if i = j then { k with phase := phase } else k := by
  unfold Manager.setPhase
  rw [List.getElem?_modify]
  rfl

theorem setPhase_self {phase : Phase} (hat : m.handles[i]? = some h) :
    (m.setPhase i phase).handles[i]? = some { h with phase := phase } := by
  rw [setPhase_at, hat, Option.map_some, if_pos rfl]

theorem setPhase_ne {j : ℕ} {phase : Phase} (hne : i ≠ j) :
    (m.setPhase i phase).handles[j]? = m.handles[j]? := by
  rw [setPhase_at]
  cases m.handles[j]? <;> simp [hne]

theorem setPhase_cases {phase : Phase} (hat : m.handles[i]? = some h) {j : ℕ} {k : Handle}
    (hk : (m.setPhase i phase).handles[j]? = some k) :
    (j = i ∧ k = { h with phase := phase }) ∨ (i ≠ j ∧ m.handles[j]? = some k) := by
  by_cases he : i = j
  · subst he
    rw [setPhase_self hat] at hk
    exact Or.inl ⟨rfl, (Option.some.inj hk).symm⟩
  · rw [setPhase_ne he] at hk
    exact Or.inr ⟨he, hk⟩

theorem other_row (hc : Coherent row m) (hat : m.handles[i]? = some h)
    (hset : RowSet row row' h.taskId r') {j : ℕ} {k : Handle} (hne : i ≠ j)
    (hk : m.handles[j]? = some k) : row' k.taskId = row k.taskId :=
  hset.other fun he => hne (hc.inj j i k h hk hat he).symm

theorem live_setPhase {phase : Phase} (hc : Coherent row m) (hl : Live row m)
    (hat : m.handles[i]? = some h) (hset : RowSet row row' h.taskId r')
    (hundone : phase.done = false → h.phase.done = false)
    (hasked : phase.done = false → h.cancelRequested = false)
    (hheld : r'.state = pending → phase.done = false) : Live row' (m.setPhase i phase) := by
  refine ⟨?_, ?_, ?_⟩
  · intro j k hj hd
    rcases setPhase_cases hat hj with ⟨rfl, rfl⟩ | ⟨-, hj⟩
    · exact hl.tracked j h hat (hundone hd)
    · exact hl.tracked j k hj hd
  · intro j k s hj hd hreq hs
    rcases setPhase_cases hat hj with ⟨rfl, rfl⟩ | ⟨hne, hj⟩
    · rw [hasked hd] at hreq
      cases hreq
    · rw [hc.other_row hat hset hne hj] at hs
      exact hl.asked j k s hj hd hreq hs
  · intro id s hs hp
    by_cases he : id = h.taskId
    · rw [he, hset.self] at hs
      cases hs
      exact ⟨i, _, setPhase_self hat, he.symm, hheld hp⟩
    · rw [hset.other he] at hs
      obtain ⟨j, k, hj, hk, hd⟩ := hl.held id s hs hp
      have hij : i ≠ j := by
        rintro rfl
        rw [hat] at hj
        cases hj
        exact he hk.symm
      exact ⟨j, k, (setPhase_ne hij).trans hj, hk, hd⟩

theorem setPhase {phase : Phase} (hc : Coherent row m) (hat : m.handles[i]? = some h)
    (hrow : row h.taskId = some r) (hset : RowSet row row' h.taskId r')
    (hagree : Handle.Agrees { h with phase := phase } r')
    (hrun : r'.state = running → phase = .calling)
    (hrec : phase.done = false → r'.state = recovering →
      h.phase.done = false ∧ r.state = recovering)
    (hundone : phase.done = false → h.phase.done = false)
    (hasked : phase.done = false → h.cancelRequested = false)
    (hheld : Live row m → r'.state = pending → phase.done = false) :
    Coherent row' (m.setPhase i phase) := by
  have hself : ∀ k : Handle, m.handles[i]? = some k → k = h := by
    intro k hk
    exact Option.some.inj (hk.symm.trans hat)
  refine hc.update (fun j => setPhase_at m i j phase) ?_ rfl ?_ ?_ ?_ ?_
  · intro j k
    split <;> rfl
  · -- Every coroutine agrees with its row.
    intro j k s hj hs ha
    by_cases he : i = j
    · subst he
      rw [hself k hj, if_pos rfl]
      exact ⟨r', hset.self, hagree⟩
    · rw [if_neg he, hc.other_row hat hset he hj]
      exact ⟨s, hs, ha⟩
  · -- Every running row has a coroutine at its call.
    intro id s' hs hr
    by_cases he : id = h.taskId
    · rw [he, hset.self] at hs
      cases hs
      exact ⟨i, h, hat, he.symm, by rw [if_pos rfl]; exact hrun hr⟩
    · rw [hset.other he] at hs
      obtain ⟨j, k, hj, hk, hph⟩ := hc.runningHeld id s' hs hr
      refine ⟨j, k, hj, hk, ?_⟩
      rw [if_neg]
      · exact hph
      · intro hij
        subst hij
        rw [hself k hj] at hk
        exact he hk.symm
  · -- A coroutine of a recovering row is tracked.
    intro j k s' hj hd hs hr
    by_cases he : i = j
    · subst he
      have hk := hself k hj
      subst hk
      rw [if_pos rfl] at hd
      rw [hset.self] at hs
      cases hs
      obtain ⟨hd', hr'⟩ := hrec hd hr
      exact hc.recoveringTracked i k r hj hd' hrow hr'
    · rw [if_neg he] at hd
      rw [hc.other_row hat hset he hj] at hs
      exact hc.recoveringTracked j k s' hj hd hs hr
  · intro hstart hgather
    have hl := hc.live hstart hgather
    exact hc.live_setPhase hl hat hset hundone hasked (hheld hl)

theorem backgroundGet_eq_some (hc : Coherent row m) :
    m.backgroundGet taskId = some i ↔ (taskId, i) ∈ m.background := by
  unfold Manager.backgroundGet
  rw [Option.map_eq_some_iff]
  constructor
  · rintro ⟨e, he, rfl⟩
    obtain ⟨hm, rfl⟩ := Table.mem_of_find he
    exact hm
  · intro hm
    exact ⟨(taskId, i), Table.find_of_mem hc.keys hm, rfl⟩

theorem cancelled_at {c : ℕ → Prop} [DecidablePred c]
    (hat : ∀ j, m'.handles[j]? = m.handles[j]?.map fun k => if c j then k.cancel else k) {j : ℕ}
    {k : Handle} (hk : m'.handles[j]? = some k) :
    ∃ l, m.handles[j]? = some l ∧ k.taskId = l.taskId ∧ k.phase = l.phase ∧
      (l.cancelRequested = true → k.cancelRequested = true) ∧
      (c j → l.phase.done = false → k.cancelRequested = true) := by
  rw [hat] at hk
  obtain ⟨l, hl, rfl⟩ := Option.map_eq_some_iff.mp hk
  refine ⟨l, hl, l.ite_cancel_taskId _, l.ite_cancel_phase _, l.ite_cancel_requested _, ?_⟩
  intro hc hd
  rw [if_pos hc]
  exact l.cancel_requested hd

theorem cancelTracked_at (m : Manager) (taskId : String) (j : ℕ) :
    (m.cancelTracked taskId).handles[j]? =
      m.handles[j]?.map fun k => if m.backgroundGet taskId = some j then k.cancel else k := by
  unfold Manager.cancelTracked
  cases hb : m.backgroundGet taskId with
  | none => simp
  | some i =>
    simp only [Option.some.injEq]
    rw [List.getElem?_modify]
    rfl

theorem cancelTracked (hc : Coherent row m) (hset : RowSet row row' taskId r')
    (hterm : r'.state ∈ terminalStates) :
    Coherent row' (m.cancelTracked taskId) := by
  have hnot : ∀ s : TaskState, s ∉ terminalStates → r'.state ≠ s := by
    intro s hs he
    exact hs (he ▸ hterm)
  -- A row in a state that is not terminal is not the cancelled one.
  have hold : ∀ id s', row' id = some s' → s'.state ∉ terminalStates →
      id ≠ taskId ∧ row id = some s' := by
    intro id s' hs hn
    have hne : id ≠ taskId := by
      intro he
      rw [he, hset.self] at hs
      cases hs
      exact hn hterm
    rw [hset.other hne] at hs
    exact ⟨hne, hs⟩
  have hself : ∀ (j : ℕ) (k : Handle), m.handles[j]? = some k → k.taskId ≠ taskId →
      (if m.backgroundGet taskId = some j then k.cancel else k) = k := by
    intro j k hj hne
    rw [if_neg]
    intro hb
    obtain ⟨l, hl, hlid⟩ := hc.entry _ (hc.backgroundGet_eq_some.mp hb)
    rw [hj] at hl
    cases hl
    exact hne hlid
  refine hc.update (cancelTracked_at m taskId) (fun _ k => k.ite_cancel_taskId _) rfl ?_ ?_ ?_ ?_
  · intro j k s hj hs ha
    by_cases he : k.taskId = taskId
    · refine ⟨r', he ▸ hset.self, agrees_of_terminal hterm ?_⟩
      -- A sleeping coroutine is tracked, or has been told before.
      intro task hph
      rw [Handle.ite_cancel_phase] at hph
      have hsleep := ha
      unfold Handle.Agrees at hsleep
      simp only [hph] at hsleep
      rcases hsleep with ⟨rfl, hrecov⟩ | ⟨-, hreq⟩
      · have hd : k.phase.done = false := by rw [hph]; rfl
        have hb := (hc.recoveringTracked j k s hj hd hs hrecov).1
        rw [he] at hb
        rw [if_pos (hc.backgroundGet_eq_some.mpr hb)]
        exact k.cancel_requested hd
      · exact k.ite_cancel_requested _ hreq
    · rw [hset.other he, hself j k hj he]
      exact ⟨s, hs, ha⟩
  · intro id s' hs hr
    obtain ⟨-, hs⟩ := hold id s' hs (by rw [hr]; decide)
    obtain ⟨j, k, hj, hk, hph⟩ := hc.runningHeld id s' hs hr
    exact ⟨j, k, hj, hk, by rw [Handle.ite_cancel_phase, hph]⟩
  · intro j k s' hj hd hs hr
    rw [Handle.ite_cancel_phase] at hd
    obtain ⟨-, hs⟩ := hold k.taskId s' hs (by rw [hr]; decide)
    exact hc.recoveringTracked j k s' hj hd hs hr
  · intro hstart hgather
    have hl := hc.live hstart hgather
    refine ⟨?_, ?_, ?_⟩
    · intro j k hj hd
      rw [cancelTracked_at] at hj
      obtain ⟨l, hl', rfl⟩ := Option.map_eq_some_iff.mp hj
      rw [Handle.ite_cancel_phase] at hd
      rw [Handle.ite_cancel_taskId]
      exact hl.tracked j l hl' hd
    · intro j k s' hj hd hreq hs
      rw [cancelTracked_at] at hj
      obtain ⟨l, hl', rfl⟩ := Option.map_eq_some_iff.mp hj
      by_cases hs' : s'.state ∈ terminalStates
      · exact hs'
      · obtain ⟨hne, hs⟩ := hold _ s' hs hs'
        have hlne : l.taskId ≠ taskId := by
          intro he
          apply hne
          rw [Handle.ite_cancel_taskId, he]
        rw [hself j l hl' hlne] at hd hreq hs
        exact hl.asked j l s' hl' hd hreq hs
    · intro id s' hs hp
      obtain ⟨-, hs⟩ := hold id s' hs (by rw [hp]; decide)
      obtain ⟨j, k, hj, hk, hd⟩ := hl.held id s' hs hp
      refine ⟨j, _, by rw [cancelTracked_at, hj]; rfl, ?_, ?_⟩
      · rw [Handle.ite_cancel_taskId, hk]
      · rw [Handle.ite_cancel_phase, hd]

theorem track_at {j : ℕ} {k : Handle} : (m.track taskId).handles[j]? = some k ↔
    m.handles[j]? = some k ∨ (j = m.handles.length ∧ k = ⟨taskId, .created, false⟩) := by
  unfold Manager.track
  rcases lt_trichotomy j m.handles.length with hj | hj | hj
  · rw [List.getElem?_append_left hj]
    exact ⟨Or.inl, fun hk => hk.resolve_right fun hq => absurd hq.1 hj.ne⟩
  · subst hj
    simp [eq_comm]
  · have h1 : m.handles[j]? = none := List.getElem?_eq_none hj.le
    rw [h1, List.getElem?_eq_none (by simp; omega)]
    simp only [reduceCtorEq, false_or, false_iff]
    intro hq
    omega

theorem track_background (hget : m.backgroundGet taskId = none) :
    (m.track taskId).background = m.background ++ [(taskId, m.handles.length)] := by
  unfold Manager.backgroundGet at hget
  unfold Manager.track Manager.backgroundSet
  simp only [Option.map_eq_none_iff.mp hget]

theorem track (hc : Coherent row m) (hfresh : row taskId = none)
    (hget : m.backgroundGet taskId = none) (hset : RowSet row row' taskId r')
    (hpend : r'.state = pending) : Coherent row' (m.track taskId) := by
  have hother : ∀ (j : ℕ) (k : Handle), m.handles[j]? = some k → k.taskId ≠ taskId := by
    intro j k hj he
    obtain ⟨s, hs⟩ := hc.row_of_at hj
    rw [he, hfresh] at hs
    cases hs
  have hold : ∀ id s', row' id = some s' → s'.state ≠ pending → row id = some s' := by
    intro id s' hs hn
    rw [hset.other] at hs
    · exact hs
    · intro he
      rw [he, hset.self] at hs
      cases hs
      exact hn hpend
  refine ⟨?_, ?_, ?_, ?_, ?_, ?_, ?_⟩
  · intro j j' k k' hj hj' he
    rcases track_at.mp hj with hj | ⟨rfl, rfl⟩ <;> rcases track_at.mp hj' with hj' | ⟨rfl, rfl⟩
    · exact hc.inj j j' k k' hj hj' he
    · exact absurd he (hother j k hj)
    · exact absurd he.symm (hother j' k' hj')
    · rfl
  · intro j k hj
    rcases track_at.mp hj with hj | ⟨rfl, rfl⟩
    · obtain ⟨s, hs, ha⟩ := hc.agrees j k hj
      exact ⟨s, by rw [hset.other (hother j k hj), hs], ha⟩
    · -- The new coroutine has a pending row.
      refine ⟨r', hset.self, ?_⟩
      show r'.state ≠ running
      rw [hpend]
      decide
  · rw [track_background hget]
    apply hc.keys.append
    simpa [Manager.backgroundGet] using hget
  · intro e he
    rw [track_background hget] at he
    rcases List.mem_append.mp he with he | he
    · obtain ⟨k, hk, hid⟩ := hc.entry e he
      exact ⟨k, track_at.mpr (Or.inl hk), hid⟩
    · rw [List.mem_singleton] at he
      subst he
      exact ⟨_, track_at.mpr (Or.inr ⟨rfl, rfl⟩), rfl⟩
  · intro id s' hs hr
    have hs := hold id s' hs (by rw [hr]; decide)
    obtain ⟨j, k, hj, hk, hph⟩ := hc.runningHeld id s' hs hr
    exact ⟨j, k, track_at.mpr (Or.inl hj), hk, hph⟩
  · intro j k s' hj hd hs hr
    have hs := hold k.taskId s' hs (by rw [hr]; decide)
    rcases track_at.mp hj with hj | ⟨rfl, rfl⟩
    · obtain ⟨hb, hg⟩ := hc.recoveringTracked j k s' hj hd hs hr
      rw [track_background hget]
      exact ⟨List.mem_append_left _ hb, hg⟩
    · rw [hfresh] at hs
      cases hs
  · intro hstart hgather
    have hl := hc.live hstart hgather
    refine ⟨?_, ?_, ?_⟩
    · intro j k hj hd
      rw [track_background hget]
      rcases track_at.mp hj with hj | ⟨rfl, rfl⟩
      · exact List.mem_append_left _ (hl.tracked j k hj hd)
      · exact List.mem_append_right _ (List.mem_singleton_self _)
    · intro j k s' hj hd hreq hs
      rcases track_at.mp hj with hj | ⟨rfl, rfl⟩
      · rw [hset.other (hother j k hj)] at hs
        exact hl.asked j k s' hj hd hreq hs
      · cases hreq
    · intro id s' hs hp
      by_cases he : id = taskId
      · exact ⟨_, _, track_at.mpr (Or.inr ⟨rfl, rfl⟩), he.symm, rfl⟩
      · rw [hset.other he] at hs
        obtain ⟨j, k, hj, hk, hd⟩ := hl.held id s' hs hp
        exact ⟨j, k, track_at.mpr (Or.inl hj), hk, hd⟩

theorem backgroundPop (hc : Coherent row m)
    (hdone : ∀ (j : ℕ) (k : Handle), m.handles[j]? = some k → k.taskId = taskId →
      k.phase.done = true) :
    Coherent row { m with background := Manager.backgroundPop m.background taskId } := by
  have hkeep : ∀ (j : ℕ) (k : Handle), m.handles[j]? = some k → k.phase.done = false →
      (k.taskId, j) ∈ m.background →
      (k.taskId, j) ∈ Manager.backgroundPop m.background taskId := by
    intro j k hj hd hb
    unfold Manager.backgroundPop
    rw [List.mem_filter]
    refine ⟨hb, decide_eq_true ?_⟩
    intro he
    rw [hdone j k hj he] at hd
    cases hd
  refine ⟨hc.inj, hc.agrees, hc.keys.filter _, ?_, hc.runningHeld, ?_, ?_⟩
  · intro e he
    exact hc.entry e (List.mem_filter.mp he).1
  · intro j k s hj hd hs hr
    obtain ⟨hb, hg⟩ := hc.recoveringTracked j k s hj hd hs hr
    exact ⟨hkeep j k hj hd hb, hg⟩
  · intro hstart hgather
    have hl := hc.live hstart hgather
    refine ⟨?_, hl.asked, hl.held⟩
    intro j k hj hd
    exact hkeep j k hj hd (hl.tracked j k hj hd)

theorem cancelBackground_at (m : Manager) (j : ℕ) :
    m.cancelBackground.handles[j]? =
      m.handles[j]?.map fun k => if j ∈ m.background.map Prod.snd then k.cancel else k := by
  unfold Manager.cancelBackground
  rw [List.getElem?_mapIdx]

theorem cancelBackground (hc : Coherent row m) :
    Coherent row { m.cancelBackground with
      gathering := some (m.background.map Prod.snd) } := by
  refine hc.update (cancelBackground_at m) (fun _ k => k.ite_cancel_taskId _) rfl ?_ ?_ ?_ ?_
  · intro j k s hj hs ha
    refine ⟨s, hs, ?_⟩
    split
    · exact ha.cancel
    · exact ha
  · intro id s hs hr
    obtain ⟨j, k, hj, hk, hph⟩ := hc.runningHeld id s hs hr
    exact ⟨j, k, hj, hk, by rw [Handle.ite_cancel_phase, hph]⟩
  · intro j k s hj hd hs hr
    rw [Handle.ite_cancel_phase] at hd
    obtain ⟨hb, -⟩ := hc.recoveringTracked j k s hj hd hs hr
    refine ⟨hb, ?_⟩
    intro gathered hg
    cases hg
    exact List.mem_map.mpr ⟨_, hb, rfl⟩
  · intro _ hg
    cases hg

theorem clear {gathering : Option (List ℕ)} (hc : Coherent row m)
    (hno : ∀ (j : ℕ) (k : Handle) (s : TaskRecord), m.handles[j]? = some k →
      k.phase.done = false → row k.taskId = some s → s.state ≠ recovering) :
    Coherent row { m with background := [], started := false, gathering := gathering } := by
  refine ⟨hc.inj, hc.agrees, List.Pairwise.nil, ?_, hc.runningHeld, ?_, ?_⟩
  · intro e he
    cases he
  · intro j k s hj hd hs hr
    exact absurd hr (hno j k s hj hd hs)
  · intro hs
    cases hs

end Coherent

namespace Process

variable {p p' : Process} {a : Action}

theorem rowSet {taskId : String} {task old : TaskRecord} {store : Store}
    (hs : p.store.upsert task = .ok store) (hrow : p.row taskId = some old)
    (hid : task.taskId = old.taskId) (hc : task.createdAt = old.createdAt) :
    RowSet p.row (p.world.write store).store.get taskId task :=
  RowSet.of_upsert hrow (hid.trans (taskId_of_row hrow)) hc hs

theorem not_done_of_sent {h : Handle} {task : TaskRecord}
    (hph : h.phase = .created ∨ h.phase = .sleeping task) : h.phase.done = false := by
  rcases hph with hph | hph <;> rw [hph] <;> rfl

theorem cancelled_terminal : cancelled ∈ terminalStates := by decide

theorem settledAs_inv {i : ℕ} {h : Handle} {r row : TaskRecord} {store : Store} (hi : p.Inv)
    (hat : p.mgr.handles[i]? = some h) (hrow : p.row h.taskId = some r)
    (hid : row.taskId = r.taskId) (hdir : row.workingDirectory = r.workingDirectory)
    (hcr : row.createdAt = r.createdAt) (hterm : row.state ∈ terminalStates)
    (hstore : p.store.upsert row = .ok store) : (p.settledAs i store row).Inv := by
  have hset := rowSet hstore hrow hid hcr
  have hnot : ∀ s : TaskState, s ∉ terminalStates → row.state ≠ s := by
    intro s hs he
    exact hs (he ▸ hterm)
  refine ⟨hi.sound.set hset (hdir ▸ hi.sound.bound _ _ hrow) (hnot _ (by decide)), ?_⟩
  have hq : Coherent _ (p.mgr.setPhase i .finished) :=
    hi.coherent.setPhase hat hrow hset (hnot _ (by decide)) (fun hr => absurd hr (hnot _ (by decide)))
      (fun hd => by cases hd) (fun hd => by cases hd) (fun hd => by cases hd)
      (fun _ hp => absurd hp (hnot _ (by decide)))
  exact hq.congr rfl rfl rfl rfl

theorem stop_world (p : Process) : p.stop.world = p.world := by
  unfold stop
  split <;> rfl

theorem Moves.inv (hi : p.Inv) (h : p.Moves a p') : p'.Inv := by
  have hs := hi.sound
  have hc := hi.coherent
  cases h with
  | idle => exact hi
  | replay => exact ⟨hs, hc⟩
  | accept hfresh htask _ hstore =>
    have hset : RowSet p.row _ _ _ := RowSet.of_insert (congrArg TaskRecord.taskId htask) hstore
    have hpend := congrArg TaskRecord.state htask
    refine ⟨hs.set hset (by rw [htask]; exact Option.some_ne_none _) (by rw [hpend]; exact nofun), ?_⟩
    have hq := hc.track hfresh (backgroundGet_eq_none hc hfresh) hset hpend
    exact hq.congr rfl rfl rfl rfl
  | cancel hrow hlive hstore =>
    have hset := rowSet hstore hrow rfl rfl
    have hbound := hs.bound _ _ hrow
    refine ⟨hs.set hset hbound nofun, ?_⟩
    have hq := hc.cancelTracked hset cancelled_terminal
    exact hq.congr rfl rfl rfl rfl
  | sleep hat hph hreq hrow hstate =>
    refine ⟨hs, ?_⟩
    refine hc.setPhase hat hrow (RowSet.same hrow) (Or.inl ⟨rfl, hstate⟩) ?_ ?_ ?_ ?_ ?_
    · intro hr
      rw [hstate] at hr
      cases hr
    · exact fun _ hr => ⟨by rw [hph]; rfl, hr⟩
    · exact fun _ => by rw [hph]; rfl
    · exact fun _ => hreq
    · exact fun _ _ => rfl
  | attempt hat hph hreq hrow hstate hstore =>
    have hset := rowSet hstore hrow rfl rfl
    have hbound := hs.bound _ _ hrow
    refine ⟨hs.set hset hbound nofun, hc.setPhase hat hrow hset ?_ (fun _ => rfl) nofun
      (fun _ => not_done_of_sent hph) (fun _ => hreq) nofun⟩
    exact Or.inl rfl
  | quit hat hdone hrow hr =>
    obtain ⟨s, hrow', hagree⟩ := hc.agrees _ _ hat
    obtain rfl : s = _ := Option.some.inj (hrow'.symm.trans hrow)
    have hne : s.state ≠ running := by
      rcases hr with hterm | ⟨hph, -⟩
      · intro he
        rw [he] at hterm
        revert hterm
        decide
      · unfold Handle.Agrees at hagree
        simpa only [hph] using hagree
    refine ⟨hs, hc.setPhase hat hrow (RowSet.same hrow) hne (fun h => absurd h hne) nofun nofun
      nofun ?_⟩
    intro hl hp
    -- Before `stop` only a caller cancels, and that ends the row first.
    have hterm : s.state ∈ terminalStates := by
      rcases hr with hterm | ⟨-, hreq⟩
      · exact hterm
      · exact hl.asked _ _ _ hat hdone hreq hrow
    rw [hp] at hterm
    revert hterm
    decide
  | settle hat hph hrow hstate ht hstore =>
    have hterm : ∀ s ∈ [completed, failed, timedOut], s ∈ terminalStates := by decide
    exact settledAs_inv hi hat hrow rfl rfl rfl (hterm _ ht) hstore
  | abandon hat hph hreq hrow hlive hstore =>
    exact settledAs_inv hi hat hrow rfl rfl rfl cancelled_terminal hstore
  | @callback i h hat hph =>
    obtain ⟨s, hrow, hagree⟩ := hc.agrees _ _ hat
    have hdone : h.phase.done = true := by rw [hph]; rfl
    have hne : s.state ≠ running := by
      unfold Handle.Agrees at hagree
      simpa only [hph] using hagree
    have hq : Coherent p.row (p.mgr.setPhase i .reaped) := by
      refine hc.setPhase hat hrow (RowSet.same hrow) hne (fun h => absurd h hne) nofun nofun
        nofun ?_
      -- A pending row is held by another coroutine, of which there is none.
      intro hl hp
      obtain ⟨j, k, hj, hk, hd⟩ := hl.held _ _ hrow hp
      obtain rfl := hc.inj j i k h hj hat hk
      rw [hat] at hj
      cases hj
      rw [hdone] at hd
      cases hd
    refine ⟨hs, hq.backgroundPop ?_⟩
    intro j k hj hk
    have hi' : (p.mgr.setPhase i .reaped).handles[i]? = some { h with phase := .reaped } :=
      Coherent.setPhase_self hat
    obtain rfl := hq.inj j i k _ hj hi' hk
    rw [hi'] at hj
    cases hj
    rfl
  | stop hg =>
    have hrow : p.stop.row = p.row := by
      unfold row
      rw [stop_world]
    refine ⟨hrow ▸ hs, ?_⟩
    rw [hrow]
    unfold Process.stop
    split
    · next hempty =>
      refine hc.clear ?_
      intro j k s hj hd hrow hr
      have hb := (hc.recoveringTracked j k s hj hd hrow hr).1
      rw [List.isEmpty_iff.mp hempty] at hb
      cases hb
    · exact hc.cancelBackground
  | stopped hg hdone =>
    refine ⟨hs, hc.clear ?_⟩
    intro j k s hj hd hrow hr
    have hin := (hc.recoveringTracked j k s hj hd hrow hr).2 _ hg
    have hover := hdone j hin
    unfold Manager.done at hover
    simp only [hj, hd] at hover
    cases hover
  | reload => exact ⟨hs, hc.congr rfl rfl rfl rfl⟩

end Process

end WorkerBridge
