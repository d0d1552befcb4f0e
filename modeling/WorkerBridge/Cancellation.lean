import WorkerBridge.Deployment
import WorkerBridge.Effects
import WorkerBridge.Lifecycle
import WorkerBridge.Shutdown

namespace WorkerBridge

open TaskState

namespace Traffic

variable {s s' s'' : Traffic} {e : TrafficEvent}

structure Later (s s' : Traffic) : Prop where
  length : s'.calls.length = s.calls.length
  call : ∀ (j : ℕ) (c' : Call), s'.calls[j]? = some c' → ∃ c, s.calls[j]? = some c ∧
    (c'.phase.isEnded = false → c.phase.isEnded = false) ∧
    (c.cancelRequested = true → c'.cancelRequested = true)

theorem Later.refl (s : Traffic) : s.Later s :=
  ⟨rfl, fun _ c hc => ⟨c, hc, id, id⟩⟩

theorem Later.trans (h : s.Later s') (h' : s'.Later s'') : s.Later s'' := by
  refine ⟨h'.length.trans h.length, ?_⟩
  intro j c'' hc''
  obtain ⟨c', hc', hlive', hasked'⟩ := h'.call j c'' hc''
  obtain ⟨c, hc, hlive, hasked⟩ := h.call j c' hc'
  exact ⟨c, hc, fun hl => hlive (hlive' hl), fun ha => hasked' (hasked ha)⟩

theorem Later.of_same (h : s'.calls = s.calls) : s.Later s' := by
  refine ⟨by rw [h], ?_⟩
  intro j c hc
  rw [h] at hc
  exact ⟨c, hc, id, id⟩

theorem Moves.later (h : s.Moves e s') (hcall : ∀ r workerId, e ≠ .call r workerId) :
    s.Later s' := by
  cases hplace : e.place with
  | none =>
    cases e with
    | tick | reload =>
      cases h
      exact .of_same rfl
    | call r workerId => exact absurd rfl (hcall r workerId)
    | resume | respond | cancel | throwCancelled => cases hplace
  | some j =>
    obtain ⟨c, c', hc⟩ := h.changes hplace
    refine ⟨by rw [hc.calls, List.length_set], ?_⟩
    intro k d hd
    by_cases he : k = j
    · subst he
      rw [hc.after] at hd
      cases hd
      refine ⟨c, hc.before, fun hlive => ?_, hc.asked⟩
      rw [hc.ended, Bool.or_eq_false_iff] at hlive
      exact hlive.1
    · rw [hc.other he] at hd
      exact ⟨d, hd, id, id⟩

theorem Moves.over {j : ℕ} (h : s.Moves e s') (hplace : e.place = some j) (hends : e.ends = true)
    {d : Call} (hd : s'.calls[j]? = some d) : d.phase.isEnded = true := by
  obtain ⟨c, c', hc⟩ := h.changes hplace
  rw [hc.after] at hd
  cases hd
  rw [hc.ended, hends, Bool.or_true]

end Traffic

namespace Running

variable {d d' : Running} {t t' : Traffic} {i j : ℕ}

theorem tell_later (d : Running) (hb : t.Balanced) (j : ℕ) :
    t.Later (d.tell t j) ∧ (d.tell t j).Balanced := by
  unfold tell
  split
  · split
    · cases hstep : t.step (.cancel j) with
      | none => exact ⟨.refl t, hb⟩
      | some t' =>
        have hm := Traffic.step_moves hstep
        exact ⟨hm.later nofun, hm.balanced hb⟩
    · exact ⟨.refl t, hb⟩
  · exact ⟨.refl t, hb⟩

theorem tell_asked (hb : t.Balanced) (howner : d.owner j = some i) (hasked : d.process.asked i = true)
    {c : Call} (hc : (d.tell t j).calls[j]? = some c) (hlive : c.phase.isEnded = false) :
    c.cancelRequested = true := by
  obtain ⟨c₀, hc₀, hlive₀, -⟩ := (d.tell_later hb j).1.call j c hc
  unfold tell at hc
  simp only [howner, hc₀, hasked, Bool.true_and] at hc
  cases hreq : c₀.cancelRequested with
  | true =>
    simp only [hreq, Bool.not_true, Bool.false_eq_true, if_false, hc₀] at hc
    cases hc
    exact hreq
  | false =>
    -- The registry of a call is there, so the step is taken.
    have hknown := hb.known c₀ (List.mem_of_getElem? hc₀)
    obtain ⟨reg, hreg⟩ : ∃ reg, t.registries[c₀.registry]? = some reg :=
      ⟨_, List.getElem?_eq_getElem hknown⟩
    have hstep : t.step (.cancel j) = some (t.cancel j c₀ reg) := by
      unfold Traffic.step
      simp only [Traffic.lookup_eq_some.mpr ⟨hc₀, hreg⟩, Option.bind_some]
      split
      · next hph =>
        have hend := hlive₀ hlive
        rw [hph] at hend
        cases hend
      · rfl
    simp only [hreq, Bool.not_false, if_true, hstep, Option.getD_some] at hc
    rw [(Traffic.cancel_frame t j c₀ reg).1,
      List.getElem?_set_self (List.getElem?_eq_some_iff.mp hc₀).1] at hc
    cases hc
    rfl

theorem foldl_tell (d : Running) (l : List ℕ) (hb : t.Balanced) :
    t.Later (l.foldl d.tell t) ∧ (l.foldl d.tell t).Balanced ∧
      ∀ j ∈ l, ∀ (i : ℕ) (c : Call), d.owner j = some i → d.process.asked i = true →
        (l.foldl d.tell t).calls[j]? = some c → c.phase.isEnded = false →
          c.cancelRequested = true := by
  induction l generalizing t with
  | nil => exact ⟨.refl t, hb, by simp⟩
  | cons k l ih =>
    obtain ⟨hlater, hbal⟩ := d.tell_later hb k
    obtain ⟨hlater', hbal', hasked'⟩ := ih hbal
    refine ⟨hlater.trans hlater', hbal', ?_⟩
    intro j hj i c howner hasked hc hlive
    rcases List.mem_cons.mp hj with rfl | hj
    · obtain ⟨c₁, hc₁, hlive₁, hasked₁⟩ := hlater'.call j c hc
      exact hasked₁ (tell_asked hb howner hasked hc₁ (hlive₁ hlive))
    · exact hasked' j hj i c howner hasked hc hlive

end Running

namespace Process

variable {p p' : Process} {a : Action} {i : ℕ} {h : Handle} {r' : TaskRecord}

/-- A coroutine that is not over is in the dictionary or has been cancelled, and
one whose task is over does not wait for its worker undisturbed. -/
structure Watched (p : Process) : Prop where
  tracked : ∀ (i : ℕ) (h : Handle), p.mgr.handles[i]? = some h → h.phase.done = false →
    h.cancelRequested = true ∨ (h.taskId, i) ∈ p.mgr.background
  gathered : p.mgr.gathering ≠ none → p.AllAsked
  told : ∀ (i : ℕ) (h : Handle) (r : TaskRecord), p.mgr.handles[i]? = some h →
    h.phase = .calling → p.row h.taskId = some r → r.state ∈ terminalStates →
      h.cancelRequested = true

namespace Watched

theorem congr (hw : Watched p) (hrow : p'.row = p.row) (hh : p'.mgr.handles = p.mgr.handles)
    (hb : p'.mgr.background = p.mgr.background) (hg : p'.mgr.gathering = p.mgr.gathering) :
    Watched p' where
  tracked := by rw [hh, hb]; exact hw.tracked
  gathered := by unfold AllAsked; rw [hh, hg]; exact hw.gathered
  told := by rw [hh, hrow]; exact hw.told

theorem setPhase {phase : Phase} (hw : Watched p) (hi : p.Inv)
    (hat : p.mgr.handles[i]? = some h) (hset : RowSet p.row p'.row h.taskId r')
    (hhandles : p'.mgr.handles = (p.mgr.setPhase i phase).handles)
    (hbg : ∀ (j : ℕ) (k : Handle), p.mgr.handles[j]? = some k → k.phase.done = false →
      (k.taskId, j) ∈ p.mgr.background → (k.taskId, j) ∈ p'.mgr.background)
    (hg : p'.mgr.gathering = p.mgr.gathering) (hundone : phase.done = false → h.phase.done = false)
    (hcalling : phase = .calling → r'.state ∉ terminalStates) : Watched p' := by
  have hcases : ∀ (j : ℕ) (k : Handle), p'.mgr.handles[j]? = some k →
      (j = i ∧ k = { h with phase := phase }) ∨ (i ≠ j ∧ p.mgr.handles[j]? = some k) :=
    fun j k hk => Coherent.setPhase_cases hat (hhandles ▸ hk)
  refine ⟨?_, ?_, ?_⟩
  · intro j k hk hd
    rcases hcases j k hk with ⟨rfl, rfl⟩ | ⟨-, hk⟩
    · exact (hw.tracked j h hat (hundone hd)).imp_right (hbg j h hat (hundone hd))
    · exact (hw.tracked j k hk hd).imp_right (hbg j k hk hd)
  · intro hne j k hk hd
    rw [hg] at hne
    rcases hcases j k hk with ⟨rfl, rfl⟩ | ⟨-, hk⟩
    · exact hw.gathered hne j h hat (hundone hd)
    · exact hw.gathered hne j k hk hd
  · intro j k s hk hph hs hterm
    rcases hcases j k hk with ⟨rfl, rfl⟩ | ⟨hne, hk⟩
    · rw [hset.self] at hs
      cases hs
      exact absurd hterm (hcalling hph)
    · rw [hi.coherent.other_row hat hset hne hk] at hs
      exact hw.told j k s hk hph hs hterm

theorem finish {phase : Phase} (hw : Watched p) (hi : p.Inv)
    (hat : p.mgr.handles[i]? = some h) (hset : RowSet p.row p'.row h.taskId r')
    (hhandles : p'.mgr.handles = (p.mgr.setPhase i phase).handles)
    (hbg : ∀ (j : ℕ) (k : Handle), p.mgr.handles[j]? = some k → k.phase.done = false →
      (k.taskId, j) ∈ p.mgr.background → (k.taskId, j) ∈ p'.mgr.background)
    (hg : p'.mgr.gathering = p.mgr.gathering) (hdone : phase.done = true) : Watched p' := by
  refine hw.setPhase hi hat hset hhandles hbg hg ?_ ?_
  · intro hd
    rw [hdone] at hd
    cases hd
  · intro he
    rw [he] at hdone
    cases hdone

theorem cancelTracked {taskId : String} (hw : Watched p) (hi : p.Inv)
    (hset : RowSet p.row p'.row taskId r')
    (hhandles : p'.mgr.handles = (p.mgr.cancelTracked taskId).handles)
    (hb : p'.mgr.background = p.mgr.background) (hg : p'.mgr.gathering = p.mgr.gathering) :
    Watched p' := by
  have hat : ∀ j, p'.mgr.handles[j]? = p.mgr.handles[j]?.map fun k =>
      if p.mgr.backgroundGet taskId = some j then k.cancel else k := by
    intro j
    rw [hhandles, Coherent.cancelTracked_at]
  refine ⟨?_, ?_, ?_⟩
  · intro j k hk hd
    obtain ⟨l, hl, hid, hph, hreq, -⟩ := Coherent.cancelled_at hat hk
    rw [hph] at hd
    rw [hid, hb]
    exact (hw.tracked j l hl hd).imp_left hreq
  · intro hne j k hk hd
    obtain ⟨l, hl, -, hph, hreq, -⟩ := Coherent.cancelled_at hat hk
    rw [hg] at hne
    rw [hph] at hd
    exact hreq (hw.gathered hne j l hl hd)
  · intro j k s hk hph hs hterm
    obtain ⟨l, hl, hid, hph', hreq, htold⟩ := Coherent.cancelled_at hat hk
    rw [hph'] at hph
    have hd : l.phase.done = false := by rw [hph]; rfl
    by_cases he : l.taskId = taskId
    · -- The coroutine of the cancelled task is in the dictionary, or knows already.
      rcases hw.tracked j l hl hd with hasked | hmem
      · exact hreq hasked
      · apply htold _ hd
        apply hi.coherent.backgroundGet_eq_some.mpr
        exact he ▸ hmem
    · rw [hid, hset.other he] at hs
      exact hreq (hw.told j l s hl hph hs hterm)

theorem stop (hw : Watched p) : Watched p.stop := by
  have hrow : p.stop.row = p.row := by
    unfold Process.row
    rw [stop_world]
  by_cases hempty : p.mgr.background.isEmpty = true
  · have hb := List.isEmpty_iff.mp hempty
    have hstop : p.stop = { p with mgr := { p.mgr with background := [], started := false } } :=
      if_pos hempty
    apply hw.congr hrow <;> rw [hstop]
    exact hb.symm
  · have hstop : p.stop = { p with mgr := { p.mgr.cancelBackground with
        gathering := some (p.mgr.background.map Prod.snd) } } := if_neg hempty
    have hall : p.stop.AllAsked := by
      intro j k hk hd
      rw [hstop] at hk
      obtain ⟨l, hl, -, hph, hreq, hasked⟩ :=
        Coherent.cancelled_at (Coherent.cancelBackground_at p.mgr) hk
      rw [hph] at hd
      rcases hw.tracked j l hl hd with htold | hmem
      · exact hreq htold
      · exact hasked (List.mem_map.mpr ⟨_, hmem, rfl⟩) hd
    refine ⟨fun j k hk hd => Or.inl (hall j k hk hd), fun _ => hall, ?_⟩
    intro j k s hk hph _ _
    exact hall j k hk (by rw [hph]; rfl)

end Watched

theorem Moves.watched (hi : p.Inv) (hw : Watched p)
    (hquiet : ∀ request taskId now, a = .call request taskId now →
      p.mgr.gathering = none ∨ p'.mgr.handles.length = p.mgr.handles.length)
    (h : p.Moves a p') : Watched p' := by
  -- Only a task that is accepted while `stop` waits would escape the watch.
  cases h with
  | idle => exact hw
  | replay => exact hw.congr rfl rfl rfl rfl
  | @accept _ taskId _ _ _ task store hfresh htask _ hstore =>
    have hset : RowSet p.row store.get taskId task :=
      RowSet.of_insert (congrArg TaskRecord.taskId htask) hstore
    have hbg := Coherent.track_background (backgroundGet_eq_none hi.coherent hfresh)
    have hgather : p.mgr.gathering = none := by
      apply (hquiet _ _ _ rfl).resolve_right
      simp [Manager.track]
    refine ⟨?_, ?_, ?_⟩
    · intro j k hk hd
      show _ ∨ _ ∈ (p.mgr.track taskId).background
      rw [hbg]
      rcases Coherent.track_at.mp hk with hk | ⟨rfl, rfl⟩
      · exact (hw.tracked j k hk hd).imp_right (List.mem_append_left _)
      · exact Or.inr (List.mem_append_right _ (List.mem_singleton_self _))
    · intro hne
      exact absurd hgather hne
    · intro j k s hk hph hs hterm
      rcases Coherent.track_at.mp hk with hk | ⟨rfl, rfl⟩
      · obtain ⟨r, hr⟩ := hi.coherent.row_of_at hk
        have hne : k.taskId ≠ taskId := by
          intro he
          rw [he, hfresh] at hr
          cases hr
        have hs' : p.row k.taskId = some s := (hset.other hne).symm.trans hs
        exact hw.told j k s hk hph hs' hterm
      · cases hph
  | cancel hrow hlive hstore =>
    exact hw.cancelTracked hi (rowSet hstore hrow rfl rfl) rfl rfl rfl
  | sleep hat hph _ hrow =>
    exact hw.setPhase hi hat (RowSet.same hrow) rfl (fun _ _ _ _ => id) rfl
      (fun _ => by rw [hph]; rfl) (fun he => by cases he)
  | attempt hat hph _ hrow _ hstore =>
    exact hw.setPhase hi hat (rowSet hstore hrow rfl rfl) rfl (fun _ _ _ _ => id) rfl
      (fun _ => not_done_of_sent hph) (fun _ => show running ∉ terminalStates by decide)
  | quit hat _ hrow =>
    exact hw.finish hi hat (RowSet.same hrow) rfl (fun _ _ _ _ => id) rfl rfl
  | settle hat _ hrow _ _ hstore =>
    exact hw.finish hi hat (rowSet hstore hrow rfl rfl) rfl (fun _ _ _ _ => id) rfl rfl
  | abandon hat _ _ hrow _ hstore =>
    exact hw.finish hi hat (rowSet hstore hrow rfl rfl) rfl (fun _ _ _ _ => id) rfl rfl
  | @callback i h hat hph =>
    obtain ⟨r, hrow⟩ := hi.coherent.row_of_at hat
    refine hw.finish hi hat (RowSet.same hrow) rfl ?_ rfl rfl
    -- An entry that goes is of a coroutine that is over.
    intro j k hk hd hmem
    apply List.mem_filter.mpr
    refine ⟨hmem, decide_eq_true ?_⟩
    intro he
    obtain rfl := hi.coherent.inj j i k h hk hat he
    rw [hat] at hk
    cases hk
    rw [hph] at hd
    cases hd
  | stop => exact hw.stop
  | @stopped gathered hg =>
    have hall : p.AllAsked := hw.gathered (by rw [hg]; exact Option.some_ne_none _)
    refine ⟨?_, ?_, hw.told⟩
    · intro j k hk hd
      exact Or.inl (hall j k hk hd)
    · intro hne
      exact absurd rfl hne
  | reload => exact hw.congr rfl rfl rfl rfl

end Process

theorem Booted.watched {w : World} {settings : Settings} {ready : List TaskRecord} {p : Process}
    (hb : Booted w settings ready p) : p.Watched := by
  refine ⟨?_, ?_, ?_⟩
  · intro i h hat _
    obtain ⟨t, ht, rfl⟩ := hb.at_iff.mp hat
    exact Or.inr (hb.background_iff.mpr ⟨t, ht, rfl⟩)
  · intro hne
    rw [hb.mgr] at hne
    exact absurd rfl hne
  · intro i h r hat hph _ _
    obtain ⟨t, ht, rfl⟩ := hb.at_iff.mp hat
    cases hph

namespace Process

variable {host : Host} {p p' : Process} {a : Action} {i j : ℕ} {k : Handle} {now : String}

theorem calling_iff : p.calling i = true ↔ ∃ k, p.mgr.handles[i]? = some k ∧ k.phase = .calling := by
  unfold calling
  split
  · next hat => simp [hat]
  · next hat =>
    simp only [Bool.false_eq_true, false_iff]
    rintro ⟨⟨taskId, phase, asked⟩, hk, rfl⟩
    exact hat _ _ hk

theorem asked_of_at (hat : p.mgr.handles[i]? = some k) : p.asked i = k.cancelRequested := by
  unfold asked
  rw [hat]

theorem throwCancelled_handles (hi : p.Inv) (h : p.throwCancelled i now = some p') :
    p'.mgr.handles = (p.mgr.setPhase i .finished).handles := by
  obtain ⟨-, -, -, -, -, -, ⟨rfl, -⟩ | ⟨-, -, store, -, rfl⟩⟩ := throwCancelled_cases hi h
  · rfl
  · rfl

theorem workerReturned_handles {result : Json} (hi : p.Inv)
    (h : p.workerReturned i result now = some p') :
    p'.mgr.handles = (p.mgr.setPhase i .finished).handles := by
  unfold workerReturned at h
  obtain ⟨k, ha, rfl⟩ := Option.map_eq_some_iff.mp h
  obtain ⟨hat, -, hph⟩ := awaiting_eq_some ha
  obtain ⟨r, hrow, hs | hs⟩ := calling_row hi hat hph
  · obtain ⟨store, -, hcomplete⟩ := complete_running result now hrow hs
    rw [hcomplete]
    rfl
  · rw [complete_terminal result now hrow hs]
    rfl

theorem workerRaised_handles {exc : PyExc} (hi : p.Inv)
    (h : p.workerRaised i exc now = some p') :
    p'.mgr.handles = (p.mgr.setPhase i .finished).handles := by
  unfold workerRaised at h
  obtain ⟨k, ha, rfl⟩ := Option.map_eq_some_iff.mp h
  obtain ⟨hat, -, hph⟩ := awaiting_eq_some ha
  obtain ⟨r, hrow, hs | hs⟩ := calling_row hi hat hph
  · obtain ⟨_, _, _, store, -, -, hexc⟩ := handleException_running exc now hrow hs
    rw [hexc]
    rfl
  · rw [handleException_terminal exc now hrow hs]
    rfl

theorem schedule_at {m : Manager} {task : TaskRecord} (hat : m.handles[j]? = some k) :
    (m.schedule task).handles[j]? = some k := by
  have htrack : (m.track task.taskId).handles[j]? = some k := Coherent.track_at.mpr (Or.inl hat)
  unfold Manager.schedule
  split
  · split
    · exact htrack
    · exact hat
  · exact htrack

theorem call_at {request : CallRequest} {taskId : String} {response : Response}
    (hfresh : p.row taskId = none) (h : p.call host request taskId now = .ok (p', response))
    (hat : p.mgr.handles[j]? = some k) : p'.mgr.handles[j]? = some k := by
  cases call_submits hfresh h with
  | refused | known => exact hat
  | created => exact schedule_at hat

theorem ofManager_calling (hi : p.Inv) (ha : a.ofManager p = true) (h : p.act host a = some p')
    (hat : p.mgr.handles[j]? = some k) (hph : k.phase = .calling) :
    ∃ k', p'.mgr.handles[j]? = some k' ∧ k'.phase = .calling := by
  cases a with
  | call request taskId now =>
    simp only [act] at h
    split at h
    · next hfresh =>
      split at h
      · next hcall =>
        cases h
        exact ⟨k, call_at hfresh hcall hat, hph⟩
      · cases h
        exact ⟨k, hat, hph⟩
    · cases h
  | check =>
    cases h
    exact ⟨k, hat, hph⟩
  | cancel taskId now =>
    cases h
    cases hrow : p.row taskId with
    | none =>
      rw [cancel_missing now hrow]
      exact ⟨k, hat, hph⟩
    | some task =>
      by_cases ht : task.state ∈ terminalStates
      · rw [cancel_terminal now hrow ht]
        exact ⟨k, hat, hph⟩
      · obtain ⟨store, -, hcancel⟩ := cancel_live now hrow ht
        rw [hcancel]
        refine ⟨_, (Coherent.cancelTracked_at p.mgr taskId j).trans (by rw [hat]; rfl), ?_⟩
        rw [Handle.ite_cancel_phase, hph]
  | throwCancelled i now =>
    have hne : i ≠ j := by
      rintro rfl
      rw [Action.ofManager, calling_iff.mpr ⟨k, hat, hph⟩] at ha
      cases ha
    refine ⟨k, ?_, hph⟩
    rw [throwCancelled_handles hi h, Coherent.setPhase_ne hne, hat]
  | doneCallback i =>
    simp only [act, doneCallback] at h
    obtain ⟨l, hl, hstep⟩ := Option.bind_eq_some_iff.mp h
    split at hstep
    · next hfinished =>
      cases hstep
      have hne : i ≠ j := by
        rintro rfl
        rw [hat] at hl
        cases hl
        rw [hph] at hfinished
        cases hfinished
      exact ⟨k, (Coherent.setPhase_ne hne).trans hat, hph⟩
    · cases hstep
  | stop =>
    simp only [act] at h
    split at h
    · cases h
      unfold Process.stop
      split
      · exact ⟨k, hat, hph⟩
      · refine ⟨_, (Coherent.cancelBackground_at p.mgr j).trans (by rw [hat]; rfl), ?_⟩
        rw [Handle.ite_cancel_phase, hph]
    · cases h
  | stopped =>
    simp only [act] at h
    split at h
    · split at h
      · cases h
        exact ⟨k, hat, hph⟩
      · cases h
    · cases h
  | resume | workerReturned | workerRaised | reload => cases ha

end Process

namespace Running

variable {host : Host} {d d' : Running} {turn : Turn}

section Linked

variable {t : Traffic} {e : TrafficEvent} {returning : Option (ℕ × Except PyExc Json)}
  {posted : List String} {i : ℕ}

/-- A call that is not over is that of a coroutine that waits for it, and has
been cancelled if the coroutine has. -/
structure Linked (d : Running) : Prop where
  balanced : d.traffic.Balanced
  owners : d.owners.length = d.traffic.calls.length
  once : ∀ j k i, d.owner j = some i → d.owner k = some i → j = k
  sent : ∀ j i, d.owner j = some i →
    ∃ h, d.process.mgr.handles[i]? = some h ∧ h.phase.unsent = false
  waits : ∀ j i c, d.owner j = some i → d.traffic.calls[j]? = some c → c.phase.isEnded = false →
    ∃ h, d.process.mgr.handles[i]? = some h ∧ h.phase = .calling ∧
      (h.cancelRequested = true → c.cancelRequested = true)

def Over (d : Running) : Prop :=
  ∀ i result, d.returning = some (i, result) → ∀ j c, d.owner j = some i →
    d.traffic.calls[j]? = some c → c.phase.isEnded = true

theorem Over.of_none (h : d.returning = none) : d.Over := by
  intro i result hr
  rw [h] at hr
  cases hr

theorem Linked.later (hl : d.Linked) (howners : d'.owners = d.owners)
    (hbal : d'.traffic.Balanced) (hlater : d.traffic.Later d'.traffic)
    (hsent : ∀ (i : ℕ) (h : Handle), d.process.mgr.handles[i]? = some h →
      h.phase.unsent = false →
      ∃ h' : Handle, d'.process.mgr.handles[i]? = some h' ∧ h'.phase.unsent = false)
    (hwaits : ∀ (j i : ℕ) (c : Call) (h : Handle), d.owner j = some i →
      d'.traffic.calls[j]? = some c → c.phase.isEnded = false →
      d.process.mgr.handles[i]? = some h → h.phase = .calling →
      ∃ h' : Handle, d'.process.mgr.handles[i]? = some h' ∧ h'.phase = .calling ∧
        (h'.cancelRequested = true → h.cancelRequested = true ∨ c.cancelRequested = true)) :
    d'.Linked := by
  have howner : d'.owner = d.owner := by
    unfold owner
    rw [howners]
  refine ⟨hbal, by rw [howners, hlater.length, hl.owners], howner ▸ hl.once, ?_, ?_⟩
  · intro j i hj
    rw [howner] at hj
    obtain ⟨h, hat, hph⟩ := hl.sent j i hj
    exact hsent i h hat hph
  · intro j i c hj hc hlive
    rw [howner] at hj
    obtain ⟨c₀, hc₀, hlive₀, hasked₀⟩ := hlater.call j c hc
    obtain ⟨h, hat, hph, hasked⟩ := hl.waits j i c₀ hj hc₀ (hlive₀ hlive)
    obtain ⟨h', hat', hph', hreq⟩ := hwaits j i c h hj hc hlive hat hph
    refine ⟨h', hat', hph', fun hr => ?_⟩
    exact (hreq hr).elim (fun hr => hasked₀ (hasked hr)) id

theorem Linked.traffic (hl : d.Linked) (hstep : d.traffic.step e = some t)
    (hcall : ∀ r workerId, e ≠ .call r workerId) :
    Linked { d with traffic := t, returning := returning, posted := posted } := by
  have hm := Traffic.step_moves hstep
  refine hl.later rfl (hm.balanced hl.balanced) (hm.later hcall) ?_ ?_
  · intro i h hat hph
    exact ⟨h, hat, hph⟩
  · intro j i c h _ _ _ hat hph
    exact ⟨h, hat, hph, Or.inl⟩

theorem Linked.setPhase {phase : Phase} {p : Process} (hl : d.Linked)
    (hbal : t.Balanced) (hlater : d.traffic.Later t)
    (hhandles : p.mgr.handles = (d.process.mgr.setPhase i phase).handles)
    (hphase : phase.unsent = false ∨ ∃ h, d.process.mgr.handles[i]? = some h ∧ h.phase.unsent = true)
    (hover : ∀ j c, d.owner j = some i → t.calls[j]? = some c → c.phase.isEnded = true) :
    Linked { d with process := p, traffic := t, returning := returning } := by
  refine hl.later rfl hbal hlater ?_ ?_
  · intro k h hat hph
    show ∃ h', p.mgr.handles[k]? = some h' ∧ _
    rw [hhandles]
    by_cases he : i = k
    · subst he
      rcases hphase with hdone | ⟨l, hlat, hunsent⟩
      · exact ⟨_, Coherent.setPhase_self hat, hdone⟩
      · rw [hat] at hlat
        cases hlat
        rw [hph] at hunsent
        cases hunsent
    · exact ⟨h, by rw [Coherent.setPhase_ne he, hat], hph⟩
  · intro j k c h hj hc hlive hat hph
    have he : i ≠ k := by
      rintro rfl
      rw [hover j c hj hc] at hlive
      cases hlive
    refine ⟨h, ?_, hph, Or.inl⟩
    rw [hhandles, Coherent.setPhase_ne he, hat]

theorem owner_append {l : List (Option ℕ)} {o : Option ℕ} {j i : ℕ} :
    (l ++ [o])[j]?.join = some i ↔ l[j]?.join = some i ∨ (j = l.length ∧ o = some i) := by
  rcases lt_trichotomy j l.length with hj | hj | hj
  · rw [List.getElem?_append_left hj]
    simp [hj.ne]
  · subst hj
    simp
  · rw [List.getElem?_eq_none hj.le, List.getElem?_eq_none (by simp; omega)]
    simp [hj.ne']

theorem Linked.call {r : ℕ} {workerId : String} {o : Option ℕ} (hl : d.Linked)
    (hstep : d.traffic.step (.call r workerId) = some t)
    (ho : ∀ i, o = some i → (∀ j, d.owner j ≠ some i) ∧
      ∃ h, d.process.mgr.handles[i]? = some h ∧ h.phase = .calling ∧ h.cancelRequested = false) :
    Linked { d with
      traffic := t, owners := d.owners ++ [o], returning := returning, posted := posted } := by
  have hm := Traffic.step_moves hstep
  obtain ⟨c, hcalls, -, hreq⟩ := hm.called
  refine ⟨hm.balanced hl.balanced, ?_, ?_, ?_, ?_⟩
  · simp [hcalls, hl.owners]
  · intro j k i hj hk
    rcases owner_append.mp hj with hj | ⟨hj, hnew⟩ <;>
      rcases owner_append.mp hk with hk | ⟨hk, hnew'⟩
    · exact hl.once j k i hj hk
    · exact absurd hj ((ho i hnew').1 j)
    · exact absurd hk ((ho i hnew).1 k)
    · exact hj.trans hk.symm
  · intro j i hj
    rcases owner_append.mp hj with hj | ⟨-, hj⟩
    · exact hl.sent j i hj
    · obtain ⟨-, h, hat, hph, -⟩ := ho i hj
      exact ⟨h, hat, by rw [hph]; rfl⟩
  · intro j i c' hj hc' hlive
    simp only [hcalls] at hc'
    rcases owner_append.mp hj with hj | ⟨-, hj⟩
    · -- An earlier call, at an earlier place.
      have hlt : j < d.traffic.calls.length := by
        rw [← hl.owners]
        by_contra hge
        rw [List.getElem?_eq_none (by omega)] at hj
        cases hj
      rw [List.getElem?_append_left hlt] at hc'
      exact hl.waits j i c' hj hc' hlive
    · obtain ⟨-, h, hat, hph, hno⟩ := ho i hj
      refine ⟨h, hat, hph, fun hr => ?_⟩
      rw [hno] at hr
      cases hr

theorem Linked.relay {p : Process} {a : Action} (hi : d.process.Inv) (hl : d.Linked)
    (ha : a.ofManager d.process = true) (hact : d.process.act host a = some p) :
    (Running.relay { d with process := p }).Linked := by
  have hm := Process.act_moves hi hact
  obtain ⟨hlater, hbal, htold⟩ := foldl_tell { d with process := p }
    (List.range d.traffic.calls.length) hl.balanced
  refine hl.later rfl hbal hlater ?_ ?_
  · intro i h hat hph
    obtain ⟨h', hat', hmove⟩ := hm.handle hat
    refine ⟨h', hat', ?_⟩
    cases hu : h'.phase.unsent with
    | false => rfl
    | true =>
      rw [hmove.unsent hu] at hph
      cases hph
  · intro j i c h hj hc hlive hat hph
    obtain ⟨h', hat', hph'⟩ := Process.ofManager_calling hi ha hact hat hph
    refine ⟨h', hat', hph', fun hr => Or.inr ?_⟩
    have hlt : j ∈ List.range d.traffic.calls.length := by
      rw [List.mem_range, ← hlater.length]
      exact (List.getElem?_eq_some_iff.mp hc).1
    exact htold j hlt i c hj ((Process.asked_of_at hat').trans hr) hc hlive

theorem resume_handles {p p' : Process} {attemptId now : String} (hi : p.Inv)
    (h : p.resume host i attemptId now = some p') :
    ∃ k phase, p.mgr.handles[i]? = some k ∧ k.phase.unsent = true ∧ k.cancelRequested = false ∧
      p'.mgr.handles = (p.mgr.setPhase i phase).handles := by
  obtain ⟨k, r, hat, hph, hreq, -, hcase⟩ := Process.resume_cases hi h
  have hunsent : k.phase.unsent = true := by
    rcases hph with hph | hph <;> rw [hph] <;> rfl
  rcases hcase with ⟨-, rfl⟩ | ⟨-, -, rfl⟩ | ⟨-, store, -, rfl⟩
  · exact ⟨k, _, hat, hunsent, hreq, rfl⟩
  · exact ⟨k, _, hat, hunsent, hreq, rfl⟩
  · exact ⟨k, _, hat, hunsent, hreq, rfl⟩

theorem isEnded_of_result {phase : CallPhase} {result : Except PyExc Json}
    (h : phase.result = some result) : phase.isEnded = true := by
  cases phase with
  | ended => rfl
  | waiting | posting => cases h

theorem Linked.send {h : Handle} (hl : d.Linked) (hfresh : ∀ j, d.owner j ≠ some i)
    (hat : d.process.mgr.handles[i]? = some h) (hph : h.phase = .calling)
    (hreq : h.cancelRequested = false) (hsend : d.send i = some d') : d'.Linked ∧ d'.Over := by
  unfold Running.send at hsend
  split at hsend
  · cases hsend
  · next sent _ _ =>
    obtain ⟨t, hstep, rfl⟩ := Option.map_eq_some_iff.mp hsend
    refine ⟨hl.call hstep ?_, ?_⟩
    · intro i' he
      cases he
      exact ⟨hfresh, h, hat, hph, hreq⟩
    · intro i' result hr j c hj hc
      obtain ⟨result', hphase, he⟩ := Option.map_eq_some_iff.mp hr
      obtain ⟨rfl, -⟩ := Prod.mk.inj he
      -- The only call of the coroutine is the new one.
      rcases owner_append.mp hj with hj | ⟨rfl, -⟩
      · exact absurd hj (hfresh j)
      · rw [hl.owners] at hc
        rw [show t.calls[d.traffic.calls.length]? = some c from hc] at hphase
        exact isEnded_of_result hphase

end Linked

inductive Moves (host : Host) (d : Running) : Turn → Running → Prop
  | manager {a : Action} {p : Process} (hnone : d.returning = none)
      (ha : a.ofManager d.process = true) (hact : d.process.act host a = some p) :
      Moves host d (.manager a) (Running.relay { d with process := p })
  | reload {workers : List WorkerConfig} {breaker : CircuitBreakerConfig}
      {recovery : RecoveryConfig} {limits : LimitsConfig} {t : Traffic}
      (hnone : d.returning = none)
      (hstep : d.traffic.step (.reload workers breaker) = some t) :
      Moves host d (.reload workers breaker recovery limits)
        { d with process := d.process.reload workers recovery limits, traffic := t }
  | resumed {i : ℕ} {attemptId now : String} {p : Process} (hnone : d.returning = none)
      (hp : d.process.resume host i attemptId now = some p) :
      Moves host d (.resume i attemptId now) { d with process := p }
  | sent {i : ℕ} {attemptId now : String} {p : Process} {d' : Running}
      (hp : d.process.resume host i attemptId now = some p) (hcalling : p.calling i = true)
      (hsend : Running.send { d with process := p } i = some d') :
      Moves host d (.resume i attemptId now) d'
  | proceeded {j : ℕ} {t : Traffic} (hnone : d.returning = none)
      (hstep : d.traffic.step (.resume j) = some t) :
      Moves host d (.proceed j) { d with traffic := t, posted := d.note true (d.taskOf j) }
  | responded {j : ℕ} {response : Except PyExc Json} {t : Traffic} (hnone : d.returning = none)
      (hstep : d.traffic.step (.respond j response) = some t) :
      Moves host d (.respond j response) { d with
        traffic := t
        returning := (d.owner j).bind fun i =>
          ((t.calls[j]?.map Call.phase).bind CallPhase.result).map fun result => (i, result) }
  | thrown {i j : ℕ} {now : String} {t : Traffic} {p : Process} (hnone : d.returning = none)
      (hstep : d.traffic.step (.throwCancelled j) = some t) (howner : d.owner j = some i)
      (hp : d.process.throwCancelled i now = some p) :
      Moves host d (.abort j now) { d with process := p, traffic := t }
  | alone {turn : Turn} {e : TrafficEvent} {t : Traffic} (hnone : d.returning = none)
      (hturn : ∀ a, turn ≠ .manager a) (hstep : d.traffic.step e = some t)
      (hcall : ∀ r workerId, e ≠ .call r workerId) : Moves host d turn { d with traffic := t }
  | called {workerId : String} {t : Traffic} (hnone : d.returning = none)
      (hstep : d.traffic.step (.call d.current workerId) = some t) :
      Moves host d (.callSync workerId) { d with traffic := t, owners := d.owners ++ [none] }
  | returned {i : ℕ} {data : Json} {now : String} {p : Process} (hr : d.returning = some (i, .ok data))
      (hp : d.process.workerReturned i data now = some p) :
      Moves host d (.goOn now) { d with process := p, returning := none }
  | raised {i : ℕ} {exc : PyExc} {now : String} {p : Process} (hr : d.returning = some (i, .error exc))
      (hp : d.process.workerRaised i exc now = some p) :
      Moves host d (.goOn now) { d with process := p, returning := none }

theorem between_moves (hnone : d.returning = none) (h : d.between host turn = some d') :
    d.Moves host turn d' := by
  cases turn with
  | manager a =>
    simp only [between] at h
    split at h
    · next ha =>
      obtain ⟨p, hact, rfl⟩ := Option.map_eq_some_iff.mp h
      exact .manager hnone ha hact
    · cases h
  | reload workers breaker recovery limits =>
    simp only [between, Option.map_eq_some_iff] at h
    obtain ⟨t, hstep, rfl⟩ := h
    exact .reload hnone hstep
  | resume i attemptId now =>
    obtain ⟨p, hp, hrest⟩ := Option.bind_eq_some_iff.mp h
    split at hrest
    · next hcalling => exact .sent hp hcalling hrest
    · cases hrest
      exact .resumed hnone hp
  | proceed j =>
    obtain ⟨t, hstep, rfl⟩ := Option.map_eq_some_iff.mp h
    exact .proceeded hnone hstep
  | respond j response =>
    obtain ⟨t, hstep, rfl⟩ := Option.map_eq_some_iff.mp h
    exact .responded hnone hstep
  | goOn => cases h
  | abort j now =>
    obtain ⟨t, hstep, hrest⟩ := Option.bind_eq_some_iff.mp h
    split at hrest
    · next i howner =>
      obtain ⟨p, hp, rfl⟩ := Option.map_eq_some_iff.mp hrest
      exact .thrown hnone hstep howner hp
    · cases hrest
      exact .alone hnone nofun hstep nofun
  | tick seconds =>
    obtain ⟨t, hstep, rfl⟩ := Option.map_eq_some_iff.mp h
    exact .alone hnone nofun hstep nofun
  | callSync workerId =>
    obtain ⟨t, hstep, rfl⟩ := Option.map_eq_some_iff.mp h
    exact .called hnone hstep
  | cancelSync j =>
    simp only [between] at h
    split at h
    · obtain ⟨t, hstep, rfl⟩ := Option.map_eq_some_iff.mp h
      exact .alone hnone nofun hstep nofun
    · cases h

theorem advance_moves (h : d.advance host turn = some d') : d.Moves host turn d' := by
  unfold advance at h
  cases hr : d.returning with
  | none =>
    rw [hr] at h
    exact between_moves hr h
  | some pair =>
    obtain ⟨i, result⟩ := pair
    rw [hr] at h
    cases turn with
    | goOn now =>
      obtain ⟨p, hp, rfl⟩ := Option.map_eq_some_iff.mp h
      cases result with
      | ok data => exact .returned hr hp
      | error exc => exact .raised hr hp
    | manager | reload | resume | proceed | respond | abort | tick | callSync | cancelSync => cases h

/-- A turn keeps the calls and the coroutines together. -/
theorem Moves.linked (hi : d.process.Inv) (hl : d.Linked) (ho : d.Over)
    (h : d.Moves host turn d') : d'.Linked ∧ d'.Over := by
  -- A coroutine that has not sent its task has no call.
  have hfresh : ∀ {i : ℕ} {k : Handle}, d.process.mgr.handles[i]? = some k →
      k.phase.unsent = true → ∀ j, d.owner j ≠ some i := by
    intro i k hat hunsent j hj
    obtain ⟨l, hlat, hsent⟩ := hl.sent j i hj
    rw [hat] at hlat
    cases hlat
    rw [hunsent] at hsent
    cases hsent
  have hresume : ∀ {i : ℕ} {k : Handle} {phase : Phase} {p : Process},
      d.process.mgr.handles[i]? = some k → k.phase.unsent = true →
        p.mgr.handles = (d.process.mgr.setPhase i phase).handles →
          Linked { d with process := p } := by
    intro i k phase p hat hunsent hhandles
    exact hl.setPhase hl.balanced (.refl _) hhandles (Or.inr ⟨k, hat, hunsent⟩)
      fun j _ hj => absurd hj (hfresh hat hunsent j)
  cases h with
  | manager hnone ha hact => exact ⟨hl.relay hi ha hact, .of_none hnone⟩
  | reload hnone hstep =>
    have hm := Traffic.step_moves hstep
    refine ⟨hl.later rfl (hm.balanced hl.balanced) (hm.later nofun) ?_ ?_, .of_none hnone⟩
    · intro i h hat hph
      exact ⟨h, hat, hph⟩
    · intro j i c h _ _ _ hat hph
      exact ⟨h, hat, hph, Or.inl⟩
  | resumed hnone hp =>
    obtain ⟨k, phase, hat, hunsent, -, hhandles⟩ := resume_handles hi hp
    exact ⟨hresume hat hunsent hhandles, .of_none hnone⟩
  | sent hp hcalling hsend =>
    obtain ⟨k, phase, hat, hunsent, hreq, hhandles⟩ := resume_handles hi hp
    obtain ⟨l, hlat, hph⟩ := Process.calling_iff.mp hcalling
    have hself : l = { k with phase := phase } := by
      rw [hhandles, Coherent.setPhase_self hat] at hlat
      exact (Option.some.inj hlat).symm
    exact (hresume hat hunsent hhandles).send (hfresh hat hunsent) hlat hph
      (by rw [hself]; exact hreq) hsend
  | proceeded hnone hstep => exact ⟨hl.traffic hstep nofun, .of_none hnone⟩
  | @responded j response t hnone hstep =>
    refine ⟨hl.traffic hstep nofun, ?_⟩
    intro i result hr k c hk hc
    obtain ⟨i', hj, hr⟩ := Option.bind_eq_some_iff.mp hr
    obtain ⟨_, -, he⟩ := Option.map_eq_some_iff.mp hr
    obtain ⟨rfl, -⟩ := Prod.mk.inj he
    obtain rfl := hl.once k j i' hk hj
    exact (Traffic.step_moves hstep).over rfl rfl hc
  | @thrown i j now t p hnone hstep howner hp =>
    have hm := Traffic.step_moves hstep
    refine ⟨hl.setPhase (hm.balanced hl.balanced) (hm.later nofun)
      (Process.throwCancelled_handles hi hp) (Or.inl rfl) ?_, .of_none hnone⟩
    intro k c hk hc
    obtain rfl := hl.once k j i hk howner
    exact hm.over rfl rfl hc
  | alone hnone _ hstep hcall => exact ⟨hl.traffic hstep hcall, .of_none hnone⟩
  | called hnone hstep => exact ⟨hl.call hstep nofun, .of_none hnone⟩
  | returned hr hp =>
    exact ⟨hl.setPhase hl.balanced (.refl _) (Process.workerReturned_handles hi hp) (Or.inl rfl)
      (ho _ _ hr), .of_none rfl⟩
  | raised hr hp =>
    exact ⟨hl.setPhase hl.balanced (.refl _) (Process.workerRaised_handles hi hp) (Or.inl rfl)
      (ho _ _ hr), .of_none rfl⟩

theorem send_process {i : ℕ} (h : d.send i = some d') : d'.process = d.process := by
  unfold send at h
  split at h
  · cases h
  · obtain ⟨t, -, rfl⟩ := Option.map_eq_some_iff.mp h
    rfl

theorem Moves.process (h : d.Moves host turn d') : d'.process = d.process ∨
    ∃ a, d.process.act host a = some d'.process ∧
      ∀ request taskId now, a = .call request taskId now → turn = .manager a := by
  cases h with
  | @manager a p _ _ hact => exact Or.inr ⟨a, hact, fun _ _ _ _ => rfl⟩
  | @reload workers breaker recovery limits =>
    exact Or.inr ⟨.reload workers recovery limits, rfl, nofun⟩
  | @resumed i attemptId now p _ hp => exact Or.inr ⟨.resume i attemptId now, hp, nofun⟩
  | @sent i attemptId now p _ hp _ hsend =>
    refine Or.inr ⟨.resume i attemptId now, ?_, nofun⟩
    rw [send_process hsend]
    exact hp
  | proceeded | responded | alone | called => exact Or.inl rfl
  | @thrown i j now t p _ _ _ hp => exact Or.inr ⟨.throwCancelled i now, hp, nofun⟩
  | @returned i data now p _ hp => exact Or.inr ⟨.workerReturned i data now, hp, nofun⟩
  | @raised i exc now p _ hp => exact Or.inr ⟨.workerRaised i exc now, hp, nofun⟩

theorem Moves.watched (hi : d.process.Inv) (hw : d.process.Watched)
    (hquiet : Deployment.quiet host (.up d) (.turn turn)) (h : d.Moves host turn d') :
    d'.process.Watched := by
  rcases h.process with hsame | ⟨a, hact, hcall⟩
  · rw [hsame]
    exact hw
  · apply Process.Moves.watched hi hw _ (Process.act_moves hi hact)
    intro request taskId now ha
    have hturn := hcall request taskId now ha
    subst ha hturn
    unfold Deployment.quiet Deployment.acceptsWhileStopping at hquiet
    cases hg : d.process.mgr.gathering with
    | none => exact Or.inl rfl
    | some gathered =>
      right
      simp only [hg, Option.isSome_some, Bool.true_and] at hquiet
      unfold Process.accepts at hquiet
      simp only [Process.act] at hact
      split at hact
      · split at hact
        · next hok =>
          cases hact
          simpa [hok] using hquiet
        · rw [Option.some.inj hact]
      · cases hact

theorem resume_sent {p p' : Process} {i : ℕ} {attemptId now : String} (hi : p.Inv)
    (h : p.resume host i attemptId now = some p') (hcalling : p'.calling i = true) :
    ∃ r sent rest, p'.world.calls = sent :: rest ∧ p.row sent.taskId = some r ∧
      r.state ∈ queuedStates := by
  obtain ⟨k, r, hat, -, -, hrow, hcase⟩ := Process.resume_cases hi h
  obtain ⟨l, hlat, hph⟩ := Process.calling_iff.mp hcalling
  rcases hcase with ⟨-, rfl⟩ | ⟨-, -, rfl⟩ | ⟨hq, store, -, rfl⟩
  · obtain rfl := Option.some.inj ((Coherent.setPhase_self hat).symm.trans hlat)
    cases hph
  · obtain rfl := Option.some.inj ((Coherent.setPhase_self hat).symm.trans hlat)
    cases hph
  · exact ⟨r, _, _, rfl, Process.row_self hrow, hq⟩

theorem note_count {posting : Bool} {o : Option String} {taskId : String}
    (h : posting = true → o ≠ some taskId) : (d.note posting o).count taskId = d.posted.count taskId := by
  unfold note
  split
  · next other =>
    apply List.count_cons_of_ne
    intro he
    exact h rfl (congrArg some he)
  · rfl

theorem Moves.posted {taskId : String} {r : TaskRecord} (hi : d.process.Inv)
    (hw : d.process.Watched) (hl : d.Linked) (hrow : d.process.row taskId = some r)
    (hterm : r.state ∈ terminalStates) (h : d.Moves host turn d') :
    d'.posted.count taskId = d.posted.count taskId := by
  -- A coroutine whose row is terminal has been cancelled, so that its call is refused.
  cases h with
  | manager | reload | resumed | responded | thrown | alone | called | returned | raised => rfl
  | sent hp hcalling hsend =>
    obtain ⟨s, sent, rest, hcalls, hs, hq⟩ := resume_sent hi hp hcalling
    simp only [send, hcalls] at hsend
    obtain ⟨t, -, rfl⟩ := Option.map_eq_some_iff.mp hsend
    apply note_count
    intro _ he
    rw [Option.some.inj he, hrow] at hs
    cases hs
    exact Process.not_terminal_of_queued hq hterm
  | @proceeded j t _ hstep =>
    apply note_count
    intro _ he
    obtain ⟨i, hj, he⟩ := Option.bind_eq_some_iff.mp he
    obtain ⟨k, hat, rfl⟩ := Option.map_eq_some_iff.mp he
    -- The coroutine was told, and so was its call, which would not go on.
    obtain ⟨c, hc, hlive, hreq⟩ := (Traffic.step_moves hstep).proceeded
    obtain ⟨k', hat', hph, hasked⟩ := hl.waits j i c hj hc hlive
    rw [hat] at hat'
    cases hat'
    rw [hasked (hw.told i k r hat hph hrow hterm)] at hreq
    cases hreq

theorem tell_self (hl : d.Linked) (j : ℕ) : d.tell d.traffic j = d.traffic := by
  unfold tell
  split
  · next i call howner hcall =>
    split
    · next hask =>
      rw [Bool.and_eq_true, Bool.not_eq_true'] at hask
      cases hstep : d.traffic.step (.cancel j) with
      | none => rfl
      | some t =>
        -- A call that can still be cancelled has been told.
        exfalso
        have hlive : call.phase.isEnded = false := by
          obtain ⟨⟨c, reg⟩, hlook, hrest⟩ := Option.bind_eq_some_iff.mp hstep
          obtain ⟨hc, -⟩ := Traffic.lookup_eq_some.mp hlook
          rw [hcall] at hc
          cases hc
          cases hph : call.phase with
          | waiting | posting => rfl
          | ended =>
            simp only [hph] at hrest
            cases hrest
        obtain ⟨h, hat, -, hasked⟩ := hl.waits j i call howner hcall hlive
        rw [Process.asked_of_at hat] at hask
        rw [hasked hask.1] at hask
        cases hask.2
    · rfl
  · rfl

theorem relay_self (hl : d.Linked) : d.relay = d := by
  unfold relay
  rw [List.foldl_fixed' (tell_self hl)]

end Running

namespace Deployment

variable {host : Host} {s s' : Deployment} {d : Running} {e : Incident}

def bridge : Deployment → Bridge
  | down w _ => .down w
  | up d => .up d.process

theorem step_bridge (h : s.step host e = some s') :
    s'.bridge = s.bridge ∨ ∃ e', s.bridge.step host e' = some s'.bridge := by
  cases step_steps h with
  | started w posted settings breaker now p hp =>
    exact Or.inr ⟨.start settings now, Option.map_eq_some_iff.mpr ⟨p, hp, rfl⟩⟩
  | startCrashed w posted settings now lost p w' hp hcrash =>
    exact Or.inr ⟨.startCrash settings now lost,
      Option.bind_eq_some_iff.mpr ⟨p, hp, Option.map_eq_some_iff.mpr ⟨w', hcrash, rfl⟩⟩⟩
  | turned d turn d' hd =>
    rcases (Running.advance_moves hd).process with hsame | ⟨a, hact, -⟩
    · exact Or.inl (congrArg Bridge.up hsame)
    · exact Or.inr ⟨.act a, Option.map_eq_some_iff.mpr ⟨_, hact, rfl⟩⟩
  | turnCrashed d turn lost d' w hd hcrash =>
    rcases (Running.advance_moves hd).process with hsame | ⟨a, hact, -⟩
    · -- Without a write the crash is one between two turns.
      rw [hsame] at hcrash
      rw [World.crashed_same rfl rfl hcrash]
      exact Or.inr ⟨.crash, rfl⟩
    · exact Or.inr ⟨.actCrash a lost,
        Option.bind_eq_some_iff.mpr ⟨_, hact, Option.map_eq_some_iff.mpr ⟨w, hcrash, rfl⟩⟩⟩
  | crashed d => exact Or.inr ⟨.crash, rfl⟩

theorem reachable_bridge {ok : Deployment → Incident → Prop}
    (h : (machine host).Reachable ok s) :
    (Bridge.machine host).Reachable Runs.anyStep s.bridge := by
  refine h.invariant (I := fun s => (Bridge.machine host).Reachable Runs.anyStep s.bridge)
    Runs.Machine.Reachable.start ?_
  intro s e s' _ hs hstep
  rcases step_bridge hstep with hsame | ⟨e', he⟩
  · rw [hsame]
    exact hs
  · exact hs.next trivial he

theorem world_bridge (s : Deployment) : s.bridge.world = s.world := by
  cases s <;> rfl

theorem step_keepsTerminal {ok : Deployment → Incident → Prop} (h : (machine host).Reachable ok s)
    (hstep : s.step host e = some s') : s.world.store.KeepsTerminal s'.world.store := by
  have hleads : (Bridge.machine host).Leads Runs.anyStep s.bridge s'.bridge := by
    rcases step_bridge hstep with hsame | ⟨e', he⟩
    · rw [hsame]
      exact Relation.ReflTransGen.refl
    · exact Relation.ReflTransGen.single ⟨e', trivial, he⟩
  rw [← world_bridge, ← world_bridge]
  exact (terminal_absorbing (reachable_bridge h) hleads).2.2.2

def Kept : Deployment → Prop
  | down _ _ => True
  | up d => d.process.Watched ∧ d.Linked ∧ d.Over

theorem linked_start {p : Process} {workers : List WorkerConfig} {breaker : CircuitBreakerConfig}
    {posted : List String} :
    Running.Linked ⟨p, (Traffic.machine workers breaker).start, [], none, posted⟩ := by
  refine ⟨Traffic.balanced_start, rfl, ?_, ?_, ?_⟩
  · intro j k i hj
    cases hj
  · intro j i hj
    cases hj
  · intro j i c hj
    cases hj

theorem kept_of_reachable (h : (machine host).Reachable (quiet host) s) : s.Kept := by
  refine h.invariant' trivial ?_
  intro s e s' hs hok hb hstep
  cases step_steps hstep with
  | started w posted settings breaker now p hp =>
    obtain ⟨w', ready, -, hboot⟩ := started_booted hp
    exact ⟨hboot.watched, linked_start, .of_none rfl⟩
  | turned d turn d' hd =>
    have hi : d.process.Inv := inv_of_reachable (reachable_bridge hs)
    obtain ⟨hw, hl, ho⟩ := hb
    have hm := Running.advance_moves hd
    exact ⟨hm.watched hi hw hok, hm.linked hi hl ho⟩
  | startCrashed | turnCrashed | crashed => trivial

theorem step_posted {taskId : String} {r : TaskRecord} (h : (machine host).Reachable (quiet host) s)
    (hrow : s.world.store.get taskId = some r) (hterm : r.state ∈ terminalStates)
    (hstep : s.step host e = some s') : s'.posted.count taskId = s.posted.count taskId := by
  cases step_steps hstep with
  | turned d turn d' hd =>
    have hi : d.process.Inv := inv_of_reachable (reachable_bridge h)
    obtain ⟨hw, hl, -⟩ := kept_of_reachable h
    exact (Running.advance_moves hd).posted hi hw hl hrow hterm
  | started | startCrashed | turnCrashed | crashed => rfl

/-- A task whose row is terminal is never sent again. -/
theorem posted_of_terminal {taskId : String} {r : TaskRecord}
    (h : (machine host).Reachable (quiet host) s) (hrow : s.world.store.get taskId = some r)
    (hterm : r.state ∈ terminalStates) (hl : (machine host).Leads (quiet host) s s') :
    s'.posted.count taskId = s.posted.count taskId := by
  have hall : (machine host).Reachable (quiet host) s' ∧ s'.world.store.get taskId = some r ∧
      s'.posted.count taskId = s.posted.count taskId := by
    refine hl.invariant (I := fun t => (machine host).Reachable (quiet host) t ∧
      t.world.store.get taskId = some r ∧ t.posted.count taskId = s.posted.count taskId)
      ⟨h, hrow, rfl⟩ ?_
    intro t e t' hok ht hstep
    obtain ⟨hreach, hget, hcount⟩ := ht
    refine ⟨hreach.next hok hstep, step_keepsTerminal hreach hstep taskId r hget hterm, ?_⟩
    exact (step_posted hreach hget hterm hstep).trans hcount
  exact hall.2.2

theorem advance_cancel {d' : Running} {taskId now : String}
    (h : d.advance host (.manager (.cancel taskId now)) = some d') :
    d' = Running.relay { d with process := (d.process.cancel taskId now).1 } := by
  cases Running.advance_moves h with
  | manager _ _ hact =>
    cases hact
    rfl
  | alone _ hturn => exact absurd rfl (hturn _)

theorem cancel_row {p : Process} {taskId : String} {r : TaskRecord} (hrow : p.row taskId = some r)
    (now : String) : ∃ updated, updated.state ∈ terminalStates ∧
      (r.state ∉ terminalStates → updated.state = cancelled) ∧
      (p.cancel taskId now).1.row taskId = some updated ∧
      (p.cancel taskId now).2 = .task (taskResponse updated) := by
  by_cases hterm : r.state ∈ terminalStates
  · rw [Process.cancel_terminal now hrow hterm]
    exact ⟨r, hterm, fun hlive => absurd hterm hlive, hrow, rfl⟩
  · obtain ⟨store, hstore, hcancel⟩ := Process.cancel_live now hrow hterm
    rw [hcancel]
    exact ⟨_, Process.cancelled_terminal, fun _ => rfl,
      (Process.rowSet hstore hrow rfl rfl).self, rfl⟩

/-- Where no call is accepted while a `stop` waits, `cancel` of a task ends its row
and there is no POST for it after that. -/
theorem cancel_effective {taskId : String} {r : TaskRecord}
    (h : (machine host).Reachable (quiet host) (.up d)) (hrow : d.process.row taskId = some r)
    (now : String) :
    (r.state ∈ terminalStates →
      d.process.cancel taskId now = (d.process, .task (taskResponse r))) ∧
    (r.state ∉ terminalStates →
      (∀ error, r.transition cancelled now (some error) none =
        .ok (r.moveTo cancelled now (some error) none)) ∧
      ∃ updated, updated.state = cancelled ∧
        (d.process.cancel taskId now).1.row taskId = some updated ∧
        (d.process.cancel taskId now).2 = .task (taskResponse updated)) ∧
    (d.returning = none → ∃ d', d.advance host (.manager (.cancel taskId now)) = some d') ∧
    ∀ d', d.advance host (.manager (.cancel taskId now)) = some d' →
      d'.process = (d.process.cancel taskId now).1 ∧ (r.state ∈ terminalStates → d' = d) ∧
      ∀ s, (machine host).Leads (quiet host) (.up d') s →
        s.posted.count taskId = d.posted.count taskId := by
  obtain ⟨updated, hterm, hcancelled, hrow', hresponse⟩ := cancel_row hrow now
  refine ⟨fun ht => Process.cancel_terminal now hrow ht, ?_, ?_, ?_⟩
  · intro hlive
    refine ⟨?_, updated, hcancelled hlive, hrow', hresponse⟩
    intro error
    exact TaskRecord.transition_of_mem (cancelled_mem_of_not_terminal hlive)
  · intro hnone
    have hadvance : d.advance host (.manager (.cancel taskId now)) =
        d.between host (.manager (.cancel taskId now)) := by
      unfold Running.advance
      rw [hnone]
    exact ⟨_, hadvance.trans rfl⟩
  · intro d' hd'
    have hreach : (machine host).Reachable (quiet host) (.up d') := by
      refine h.next (a := .turn (.manager (.cancel taskId now))) rfl ?_
      exact Option.map_eq_some_iff.mpr ⟨d', hd', rfl⟩
    have he := advance_cancel hd'
    refine ⟨by rw [he]; rfl, ?_, ?_⟩
    · intro ht
      rw [Process.cancel_terminal now hrow ht] at he
      rw [he]
      exact Running.relay_self (kept_of_reachable h).2.1
    · intro s hs
      have hget : d'.process.row taskId = some updated := by
        rw [he]
        exact hrow'
      have hcount := posted_of_terminal hreach hget hterm hs
      rw [hcount, he]
      rfl

end Deployment

namespace Sample

def boot : Incident := .start (settings .always 0) breaker "t0"

def submitTask (taskId : String) : Incident :=
  .turn (.manager (.call ⟨"w", prompt, none⟩ taskId "t0"))

/-- A task waits for the slot of its worker and is granted it. -/
def granted : List Incident :=
  [boot, submitTask "a", .turn (.resume 0 "r" "t1"), submitTask "b", .turn (.resume 1 "s" "t2"),
    .turn (.respond 0 (.ok (.obj []))), .turn (.goOn "t3")]

/-- A sync call has the slot of the worker, and a task is accepted while a `stop`
waits for another. -/
def overlooked : List Incident :=
  [boot, .turn (.callSync "w"), submitTask "a", .turn (.resume 0 "r" "t1"), .turn (.manager .stop),
    submitTask "b", .turn (.abort 1 "t2"), .turn (.resume 1 "s" "t3"),
    .turn (.manager (.doneCallback 0)), .turn (.manager .stopped)]

def slotFreed : List Incident := [.turn (.respond 0 (.ok (.obj []))), .turn (.proceed 2)]

end Sample

namespace Deployment

/-- A task that is cancelled after it was granted the slot and before it goes on. -/
theorem cancel_effective_granted : ∃ d : Running,
    (d.process.row "b").map TaskRecord.state = some running ∧ d.posted = ["a"] ∧
    ∃ d', d.advance Sample.host (.manager (.cancel "b" "t4")) = some d' ∧
      ∀ s, (machine Sample.host).Leads (quiet Sample.host) (.up d') s → s.posted.count "b" = 0 := by
  obtain ⟨s, hs, hp⟩ := Runs.Machine.exists_reachable_of_run (machine Sample.host)
    (quiet Sample.host) Sample.granted
    (fun s => match s with
      | .up d => decide ((d.process.row "b").map TaskRecord.state = some running) &&
          (decide (d.posted = ["a"]) && decide (d.returning.isNone))
      | .down _ _ => false)
    (by decide)
  cases s with
  | down => cases hp
  | up d =>
    simp only [Bool.and_eq_true, decide_eq_true_eq, Option.isNone_iff_eq_none] at hp
    obtain ⟨hstate, hposted, hnone⟩ := hp
    obtain ⟨r, hrow, -⟩ := Option.map_eq_some_iff.mp hstate
    obtain ⟨-, -, htotal, hsilent⟩ := cancel_effective hs hrow "t4"
    obtain ⟨d', hd'⟩ := htotal hnone
    refine ⟨d, hstate, hposted, d', hd', ?_⟩
    intro s hl
    rw [(hsilent d' hd').2.2 s hl, hposted]
    rfl

/-- `stop` forgets the task it did not wait for, and `cancel` does not find its
coroutine, which is sent when the slot of its worker is free. -/
theorem overlooked_task_sent : ∃ (d d' : Running) (s : Deployment),
    (machine Sample.host).Reachable Runs.anyStep (.up d) ∧
    (d.process.row "b").map TaskRecord.state = some running ∧
    d.advance Sample.host (.manager (.cancel "b" "t4")) = some d' ∧
    (machine Sample.host).Leads Runs.anyStep (.up d') s ∧
    d.posted.count "b" = 0 ∧ s.posted.count "b" = 1 := by
  have hrun : ((machine Sample.host).run Runs.anyStep (machine Sample.host).start
      Sample.overlooked).bind (fun s => match s with
        | .up d => (d.advance Sample.host (.manager (.cancel "b" "t4"))).bind fun d' =>
          ((machine Sample.host).run Runs.anyStep (.up d') Sample.slotFreed).map fun s =>
            decide ((d.process.row "b").map TaskRecord.state = some running) &&
              (decide (d.posted.count "b" = 0) && decide (s.posted.count "b" = 1))
        | .down _ _ => none) = some true := by
    decide
  obtain ⟨s₀, hs₀, hrest⟩ := Option.bind_eq_some_iff.mp hrun
  cases s₀ with
  | down => cases hrest
  | up d =>
    obtain ⟨d', hd', hlast⟩ := Option.bind_eq_some_iff.mp hrest
    obtain ⟨s, hs, hp⟩ := Option.map_eq_some_iff.mp hlast
    simp only [Bool.and_eq_true, decide_eq_true_eq] at hp
    exact ⟨d, d', s, Runs.Machine.reachable_of_run hs₀, hp.1, hd', Runs.Machine.leads_of_run hs,
      hp.2⟩

end Deployment

end WorkerBridge
