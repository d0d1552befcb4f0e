import WorkerBridge.Preservation
import WorkerBridge.Server

namespace WorkerBridge

open TaskState

/-- The record `r` asks for what `t` asks for. -/
structure TaskRecord.Carries (t r : TaskRecord) : Prop where
  taskId : r.taskId = t.taskId
  workerId : r.workerId = t.workerId
  key : r.idempotencyKey = t.idempotencyKey
  directory : t.workingDirectory ≠ none → r.workingDirectory = t.workingDirectory

namespace TaskRecord.Carries

variable {t r s : TaskRecord}

theorem refl (t : TaskRecord) : t.Carries t := ⟨rfl, rfl, rfl, fun _ => rfl⟩

theorem trans (h : t.Carries r) (h' : r.Carries s) : t.Carries s where
  taskId := h'.taskId.trans h.taskId
  workerId := h'.workerId.trans h.workerId
  key := h'.key.trans h.key
  directory hd := by
    have hr := h.directory hd
    exact (h'.directory (hr ▸ hd)).trans hr

theorem moveTo (t : TaskRecord) (target : TaskState) (now : String) (error : Option Text)
    (result : Option Json) : t.Carries (t.moveTo target now error result) :=
  ⟨rfl, rfl, rfl, fun _ => rfl⟩

theorem nextAttempt (t : TaskRecord) (attemptId now : String) :
    t.Carries (t.nextAttempt attemptId now) := ⟨rfl, rfl, rfl, fun _ => rfl⟩

theorem keep (h : t.Carries r) (created : String) : t.Carries { r with createdAt := created } :=
  ⟨h.taskId, h.workerId, h.key, h.directory⟩

end TaskRecord.Carries

theorem RowSet.trans {row row' row'' : String → Option TaskRecord} {id : String}
    {r r' : TaskRecord} (h : RowSet row row' id r) (h' : RowSet row' row'' id r') :
    RowSet row row'' id r' := by
  intro k
  rw [h' k]
  split
  · rfl
  · next hk => rw [h k, if_neg hk]

/-- `w'` is `w` after writes that left the store such that `P`. -/
def World.Writes (P : Store → Prop) (w w' : World) : Prop :=
  ∃ vs, w'.versions = vs ++ w.versions ∧ ∀ s ∈ vs, P s

namespace World.Writes

variable {P Q : Store → Prop} {w w' w'' : World}

theorem of_same (hs : w'.store = w.store) (hp : w'.past = w.past) : w.Writes P w' :=
  ⟨[], by simp only [World.versions, hs, hp, List.nil_append], nofun⟩

theorem of_write (hs : P w'.store) (hp : w'.past = w.store :: w.past) : w.Writes P w' := by
  refine ⟨[w'.store], by simp only [World.versions, hp, List.cons_append, List.nil_append], ?_⟩
  intro s hmem
  rw [List.mem_singleton.mp hmem]
  exact hs

theorem trans (h : w.Writes P w') (h' : w'.Writes P w'') : w.Writes P w'' := by
  obtain ⟨vs, hvs, hp⟩ := h
  obtain ⟨vs', hvs', hp'⟩ := h'
  refine ⟨vs' ++ vs, by rw [hvs', hvs, List.append_assoc], ?_⟩
  intro s hmem
  rcases List.mem_append.mp hmem with hmem | hmem
  · exact hp' s hmem
  · exact hp s hmem

theorem mono (h : w.Writes P w') (hpq : ∀ s, P s → Q s) : w.Writes Q w' := by
  obtain ⟨vs, hvs, hp⟩ := h
  exact ⟨vs, hvs, fun s hmem => hpq s (hp s hmem)⟩

theorem of_drop {vs rest : List Store} {n : ℕ} {s old : Store} {past : List Store}
    (hd : (vs ++ old :: rest).drop n = s :: past) (hn : n ≤ vs.length) (hp : ∀ s ∈ vs, P s) :
    s = old ∨ P s := by
  rw [List.drop_append_of_le_length hn] at hd
  cases hk : vs.drop n with
  | nil =>
    rw [hk] at hd
    cases hd
    exact Or.inl rfl
  | cons v vs' =>
    rw [hk] at hd
    obtain ⟨rfl, -⟩ := List.cons.inj hd
    exact Or.inr (hp v (List.mem_of_mem_drop (hk ▸ List.mem_cons_self)))

theorem store (h : w.Writes P w') : w'.store = w.store ∨ P w'.store := by
  obtain ⟨vs, hvs, hp⟩ := h
  exact of_drop (n := 0) hvs.symm (Nat.zero_le _) hp

theorem crashed (h : w.Writes P w') {lost : ℕ} (hc : w.crashed w' lost = some w'') :
    w''.store = w.store ∨ P w''.store := by
  obtain ⟨vs, hvs, hp⟩ := h
  obtain ⟨hle, store, past, hdrop, rfl⟩ := crashed_eq_some.mp hc
  have hlen : w'.past.length + 1 = vs.length + (w.past.length + 1) := by
    simpa [World.versions] using congrArg List.length hvs
  rw [hvs] at hdrop
  exact of_drop hdrop (by omega) hp

end World.Writes

structure Manager.SameSettings (m m' : Manager) : Prop where
  workers : m'.workers = m.workers
  recovery : m'.recovery = m.recovery
  limits : m'.limits = m.limits

namespace Process

variable {p p' q : Process} {t r : TaskRecord} {taskId : String} {i : ℕ}

theorem upsert_puts {old : TaskRecord} (h : p.upsert r = .ok p')
    (hold : p.row r.taskId = some old) :
    p'.mgr = p.mgr ∧ p'.world.calls = p.world.calls ∧ p'.world.past = p.store :: p.world.past ∧
      RowSet p.row p'.row r.taskId { r with createdAt := old.createdAt } := by
  unfold upsert World.upsert at h
  cases hs : p.world.store.upsert r with
  | error exc =>
    rw [hs] at h
    cases h
  | ok store =>
    rw [hs] at h
    cases h
    exact ⟨rfl, rfl, rfl, Store.get_upsert_keep hold hs⟩

/-- A record that a coroutine can have in hand: a row, or the copy it sleeps on. -/
inductive Knows (p : Process) (t : TaskRecord) : Prop
  | row (h : p.row t.taskId = some t)
  | sleeping {i : ℕ} {k : Handle} (hat : p.mgr.handles[i]? = some k) (hph : k.phase = .sleeping t)

def Held (p : Process) : Prop :=
  ∀ (i : ℕ) (k : Handle) (t : TaskRecord), p.mgr.handles[i]? = some k → k.phase = .sleeping t →
    t.state = recovering ∧ ∃ r, p.row t.taskId = some r ∧ r.workerId = t.workerId ∧
      r.idempotencyKey = t.idempotencyKey

/-- How a coroutine of `p` can rewrite the row `r`. -/
structure Rewrites (p : Process) (r r' : TaskRecord) : Prop where
  known : ∃ t, p.Knows t ∧ t.Carries r'
  workerId : r'.workerId = r.workerId
  key : r'.idempotencyKey = r.idempotencyKey
  cancelled : r'.state = cancelled → r'.error = some "background task cancelled".toList

/-- Every row of `p` is there in the store, as it was or rewritten, and no other. -/
def Rewritten (p : Process) (s : Store) : Prop :=
  ∀ id, s.get id = p.row id ∨ ∃ r r', p.row id = some r ∧ s.get id = some r' ∧ p.Rewrites r r'

theorem Rewritten.of_set {s : Store} {r' : TaskRecord} (hrow : p.row taskId = some r)
    (hset : RowSet p.row s.get taskId r') (h : p.Rewrites r r') : p.Rewritten s := by
  intro id
  by_cases hid : id = taskId
  · subst hid
    exact Or.inr ⟨r, r', hrow, hset.self, h⟩
  · exact Or.inl (hset.other hid)

theorem Held.row_of_knows (hh : p.Held) (hk : p.Knows t) : ∃ r, p.row t.taskId = some r ∧
    r.workerId = t.workerId ∧ r.idempotencyKey = t.idempotencyKey := by
  cases hk with
  | row h => exact ⟨t, h, rfl, rfl⟩
  | sleeping hat hph => exact (hh _ _ t hat hph).2

/-- `p'` is `p` after at most one row was settled. -/
structure Closes (p p' : Process) : Prop where
  settings : p.mgr.SameSettings p'.mgr
  handles : p'.mgr.handles = p.mgr.handles
  calls : p'.world.calls = p.world.calls
  writes : p.world.Writes p.Rewritten p'.world

theorem Closes.refl (p : Process) : Closes p p := ⟨⟨rfl, rfl, rfl⟩, rfl, rfl, .of_same rfl rfl⟩

theorem settle_closes {target : TaskState} {now : String} {error : Option Text}
    {result : Option Json} (h : p.settle t target now error result = .ok p')
    (hrow : p.row taskId = some t)
    (hc : target = cancelled → error = some "background task cancelled".toList) :
    Closes p p' := by
  have hself := row_self hrow
  unfold settle TaskRecord.transition at h
  split at h
  · simp only [bind, Except.bind] at h
    cases hu : p.upsert (t.moveTo target now error result) with
    | error exc =>
      rw [hu] at h
      cases h
    | ok q =>
      rw [hu] at h
      cases h
      obtain ⟨hmgr, hcalls, hpast, hset⟩ := upsert_puts hu hself
      refine ⟨⟨by rw [hmgr], by rw [hmgr], by rw [hmgr]⟩, by rw [hmgr], hcalls, .of_write ?_ hpast⟩
      refine Rewritten.of_set hself hset ⟨⟨t, .row hself, ?_⟩, rfl, rfl, ?_⟩
      · exact (TaskRecord.Carries.moveTo ..).keep _
      · intro hs
        show error.or t.error = _
        rw [hc hs]
        rfl
  · cases h

theorem failTerminal_closes {state : TaskState} (error : Text) (now : String)
    (hs : state ≠ cancelled) : Closes p (p.failTerminal taskId state error now) := by
  unfold failTerminal
  split
  · exact .refl p
  · next latest hrow =>
    split
    · exact .refl p
    · split
      · next hset => exact settle_closes hset hrow fun he => absurd he hs
      · exact .refl p

theorem handleException_closes (exc : PyExc) (now : String) :
    Closes p (p.handleException taskId exc now) := by
  unfold handleException
  split
  · exact failTerminal_closes _ now (by decide)
  · split
    · exact .refl p
    · split
      · exact .refl p
      · refine failTerminal_closes _ now ?_
        split <;> decide

theorem handleCancelled_closes (now : String) : Closes p (p.handleCancelled taskId now) := by
  unfold handleCancelled
  split
  · exact .refl p
  · next hrow =>
    split
    · exact .refl p
    · split
      · next hset => exact settle_closes hset hrow fun _ => rfl
      · exact .refl p

theorem complete_closes (result : Json) (now : String) :
    Closes p (p.complete taskId result now) := by
  unfold complete
  split
  · exact .refl p
  · next hrow =>
    split
    · exact .refl p
    · split
      · next hset => exact settle_closes hset hrow nofun
      · exact handleException_closes _ now

theorem transition_carries {target : TaskState} {now : String} {error : Option Text}
    {result : Option Json} (h : t.transition target now error result = .ok r) :
    t.Carries r ∧ r.state = target := by
  unfold TaskRecord.transition at h
  split at h
  · cases h
    exact ⟨.moveTo .., rfl⟩
  · cases h

/-- `p'` is `p` after writes, if any, of records that carry `t` in the place of its row. -/
structure Puts (p p' : Process) (t : TaskRecord) : Prop where
  mgr : p'.mgr = p.mgr
  calls : p'.world.calls = p.world.calls
  writes : p.world.Writes (fun s => ∃ r, RowSet p.row s.get t.taskId r ∧ t.Carries r ∧
    r.state ≠ cancelled) p'.world

theorem Puts.refl (p : Process) (t : TaskRecord) : p.Puts p t := ⟨rfl, rfl, .of_same rfl rfl⟩

theorem Puts.row (h : p.Puts p' t) : p'.row = p.row ∨
    ∃ r, RowSet p.row p'.row t.taskId r ∧ t.Carries r ∧ r.state ≠ cancelled :=
  h.writes.store.imp (congrArg Store.get) id

theorem Puts.trans (h : p.Puts q t) (h' : q.Puts p' t) : p.Puts p' t := by
  refine ⟨h'.mgr.trans h.mgr, h'.calls.trans h.calls, h.writes.trans (h'.writes.mono ?_)⟩
  rintro s ⟨r', hset', hr'⟩
  rcases h.row with hrow | ⟨r, hset, -⟩
  · exact ⟨r', hrow ▸ hset', hr'⟩
  · exact ⟨r', hset.trans hset', hr'⟩

theorem Puts.exists_row (h : p.Puts p' t) (hold : ∃ old, p.row t.taskId = some old) :
    ∃ old, p'.row t.taskId = some old := by
  obtain ⟨old, hold⟩ := hold
  rcases h.row with hrow | ⟨r, hset, -⟩
  · exact ⟨old, by rw [hrow, hold]⟩
  · exact ⟨r, hset.self⟩

theorem upsert_puts_carried (h : p.upsert r = .ok p') (hc : t.Carries r)
    (hs : r.state ≠ cancelled) (hold : ∃ old, p.row t.taskId = some old) : p.Puts p' t := by
  obtain ⟨old, hold⟩ := hold
  obtain ⟨hmgr, hcalls, hpast, hset⟩ := upsert_puts h (hc.taskId ▸ hold)
  refine ⟨hmgr, hcalls, .of_write ⟨{ r with createdAt := old.createdAt }, ?_, hc.keep _, hs⟩ hpast⟩
  rw [← hc.taskId]
  exact hset

theorem bindDirectory_puts {host : Host} {bound : TaskRecord}
    (h : p.bindDirectory host t = .ok (q, bound)) (hold : ∃ old, p.row t.taskId = some old)
    (hs : t.state ≠ cancelled) : p.Puts q t ∧ t.Carries bound ∧ bound.state = t.state := by
  unfold bindDirectory at h
  cases hd : t.workingDirectory with
  | some d =>
    simp only [hd] at h
    cases h
    exact ⟨.refl p t, .refl t, rfl⟩
  | none =>
    simp only [hd, bind, Except.bind] at h
    split at h
    · cases h
    · split at h
      · cases h
      · next directory _ =>
        have hcarries : t.Carries { t with workingDirectory := some directory } :=
          ⟨rfl, rfl, rfl, fun hne => absurd hd hne⟩
        split at h
        · cases h
        · next q' hu =>
          cases h
          exact ⟨upsert_puts_carried hu hcarries hs hold, hcarries, rfl⟩

theorem beginAttempt_puts {host : Host} {attemptId now : String} {sent : TaskRecord}
    (h : p.beginAttempt host t attemptId now = .ok (p', sent))
    (hold : ∃ old, p.row t.taskId = some old) (hs : t.state ≠ cancelled) :
    p.Puts p' t ∧ t.Carries sent := by
  unfold beginAttempt at h
  cases hb : p.bindDirectory host t with
  | error exc =>
    rw [hb] at h
    cases h
  | ok out =>
    obtain ⟨q, bound⟩ := out
    obtain ⟨hputs, hcarries, hstate⟩ := bindDirectory_puts hb hold hs
    have hold' := hputs.exists_row hold
    have hsend : ∀ task, t.Carries task →
        (if task.state = pending then do
          let task ← (task.nextAttempt attemptId now).transition running now none none
          let p ← q.upsert task
          .ok (p, task)
        else .ok (q, task)) = Except.ok (p', sent) → p.Puts p' t ∧ t.Carries sent := by
      intro task htc hout
      split at hout
      · simp only [bind, Except.bind] at hout
        split at hout
        · cases hout
        · next begun hbegun =>
          obtain ⟨hc, hst⟩ := transition_carries hbegun
          have hbc : t.Carries begun := (htc.trans (.nextAttempt ..)).trans hc
          have hne : begun.state ≠ cancelled := by rw [hst]; decide
          split at hout
          · cases hout
          · next q' hu =>
            cases hout
            exact ⟨hputs.trans (upsert_puts_carried hu hbc hne hold'), hbc⟩
      · cases hout
        exact ⟨hputs, htc⟩
    rw [hb] at h
    by_cases hrec : bound.state = recovering
    · simp only [bind, Except.bind, if_pos hrec] at h
      -- A recovering row is pending again before it is sent.
      cases htask : bound.transition pending now none none with
      | error exc =>
        rw [htask] at h
        cases h
      | ok task =>
        rw [htask] at h
        exact hsend task (hcarries.trans (transition_carries htask).1) h
    · simp only [bind, Except.bind, if_neg hrec] at h
      exact hsend bound hcarries h

/-- What a coroutine of `p` has sent in the step to `p'`. -/
inductive Emits (p p' : Process) : Prop
  | nothing (h : p'.world.calls = p.world.calls)
  | one {t sent : TaskRecord} {lifetime : ℕ} {recoveryAttempt : Bool} (known : p.Knows t)
      (carries : t.Carries sent)
      (h : p'.world.calls = sentCall lifetime sent recoveryAttempt :: p.world.calls)

/-- A coroutine of `m` that sleeps has slept in `p`, or on a row that it has read there. -/
def Sleeps (p : Process) (m : Manager) : Prop :=
  ∀ (i : ℕ) (k : Handle) (t : TaskRecord), m.handles[i]? = some k → k.phase = .sleeping t →
    t.state = recovering ∧ p.row t.taskId = some t ∨
      ∃ k, p.mgr.handles[i]? = some k ∧ k.phase = .sleeping t

theorem Sleeps.of_phases {m : Manager}
    (h : ∀ (i : ℕ) (k' : Handle), m.handles[i]? = some k' → k'.phase = .created ∨
      ∃ k, p.mgr.handles[i]? = some k ∧ k'.phase = k.phase) : p.Sleeps m := by
  intro i k' t hat ht
  rcases h i k' hat with hk | ⟨k, hk, hph⟩
  · rw [hk] at ht
    cases ht
  · exact Or.inr ⟨k, hk, hph.symm.trans ht⟩

theorem Sleeps.of_handles {m : Manager} (h : m.handles = p.mgr.handles) : p.Sleeps m :=
  .of_phases fun _ k hat => Or.inr ⟨k, h ▸ hat, rfl⟩

structure Stretch (p p' : Process) : Prop where
  settings : p.mgr.SameSettings p'.mgr
  sleeping : p.Sleeps p'.mgr
  emits : p.Emits p'
  writes : p.world.Writes p.Rewritten p'.world

theorem setPhase_at {i j : ℕ} {phase : Phase} {k : Handle}
    (h : (p.setPhase i phase).mgr.handles[j]? = some k) :
    k.phase = phase ∨ p.mgr.handles[j]? = some k := by
  unfold setPhase Manager.setPhase at h
  rw [List.getElem?_modify] at h
  obtain ⟨k', hk', rfl⟩ := Option.map_eq_some_iff.mp h
  split
  · exact Or.inl rfl
  · exact Or.inr hk'

theorem Closes.stretch (h : Closes p p') {i : ℕ} {phase : Phase}
    (hph : ∀ t, phase ≠ .sleeping t) : p.Stretch (p'.setPhase i phase) where
  settings := ⟨h.settings.workers, h.settings.recovery, h.settings.limits⟩
  sleeping := by
    intro j k t hat ht
    rcases setPhase_at hat with hk | hk
    · exact absurd (hk.symm.trans ht) (hph t)
    · exact Or.inr ⟨k, h.handles ▸ hk, ht⟩
  emits := .nothing h.calls
  writes := h.writes

theorem Closes.finished (h : Closes p p') {i : ℕ} : p.Stretch (p'.setPhase i .finished) := by
  refine h.stretch ?_
  intro t ht
  cases ht

theorem Closes.reaped (h : Closes p p') {i : ℕ} : p.Stretch (p'.setPhase i .reaped) := by
  refine h.stretch ?_
  intro t ht
  cases ht

theorem dispatch_stretch {host : Host} {i : ℕ} {attemptId now : String} (hh : p.Held)
    (hk : p.Knows t) (hs : t.state ≠ cancelled) :
    p.Stretch (p.dispatch host i t attemptId now) := by
  obtain ⟨old, hold, hworker, hkey⟩ := hh.row_of_knows hk
  unfold dispatch
  split
  · next q sent hb =>
    obtain ⟨hputs, hcarries⟩ := beginAttempt_puts hb ⟨old, hold⟩ hs
    have hsame : p.mgr.SameSettings q.mgr := by
      rw [hputs.mgr]
      exact ⟨rfl, rfl, rfl⟩
    refine ⟨⟨hsame.workers, hsame.recovery, hsame.limits⟩, ?_, ?_, hputs.writes.mono ?_⟩
    · intro j k t' hat ht
      rcases setPhase_at (p := q) hat with hc | hc
      · rw [hc] at ht
        cases ht
      · exact Or.inr ⟨k, hputs.mgr ▸ hc, ht⟩
    · have hcalls : (q.callWorker i sent (decide (t.state = recovering))).world.calls =
          sentCall q.world.lifetimes sent (decide (t.state = recovering)) :: p.world.calls := by
        rw [← hputs.calls]
        rfl
      exact .one hk hcarries hcalls
    · rintro s ⟨r, hset, hr, hrs⟩
      refine Rewritten.of_set hold hset ⟨⟨t, hk, hr⟩, ?_, ?_, fun hc => absurd hc hrs⟩
      · exact hr.workerId.trans hworker.symm
      · exact hr.key.trans hkey.symm
  · exact (handleException_closes _ now).finished

theorem runTask_stretch {host : Host} {i : ℕ} {attemptId now : String} (hh : p.Held) :
    p.Stretch (p.runTask host i taskId attemptId now) := by
  unfold runTask
  split
  · exact (Closes.refl p).finished
  · next task hrow =>
    have hself := row_self hrow
    split
    · exact (Closes.refl p).finished
    · next hterm =>
      split
      · next hdelay =>
        refine ⟨⟨rfl, rfl, rfl⟩, ?_, .nothing rfl, .of_same rfl rfl⟩
        intro j k t hat ht
        rcases setPhase_at hat with hk | hk
        · obtain rfl : task = t := by
            rw [hk] at ht
            exact Phase.sleeping.inj ht
          exact Or.inl ⟨hdelay.2, hself⟩
        · exact Or.inr ⟨k, hk, ht⟩
      · refine dispatch_stretch hh (.row hself) ?_
        intro hc
        rw [hc] at hterm
        exact hterm (by decide)

theorem act_stretch {host : Host} {a : Action} (hh : p.Held) (ha : a.ofCoroutine = true)
    (h : p.act host a = some p') : p.Stretch p' := by
  cases a with
  | resume i attemptId now =>
    obtain ⟨k, hk, h⟩ := Option.bind_eq_some_iff.mp h
    obtain ⟨hat, -⟩ := Option.filter_eq_some_iff.mp hk
    cases hph : k.phase with
    | created =>
      simp only [hph, Option.some.injEq] at h
      exact h ▸ runTask_stretch hh
    | sleeping task =>
      simp only [hph, Option.some.injEq] at h
      have hs : task.state ≠ cancelled := by
        rw [(hh i k task hat hph).1]
        decide
      exact h ▸ dispatch_stretch hh (.sleeping hat hph) hs
    | calling =>
      simp only [hph] at h
      cases h
    | finished =>
      simp only [hph] at h
      cases h
    | reaped =>
      simp only [hph] at h
      cases h
  | workerReturned i result now =>
    obtain ⟨k, -, rfl⟩ := Option.map_eq_some_iff.mp h
    exact (complete_closes result now).finished
  | workerRaised i exc now =>
    obtain ⟨k, -, rfl⟩ := Option.map_eq_some_iff.mp h
    exact (handleException_closes exc now).finished
  | throwCancelled i now =>
    obtain ⟨k, -, h⟩ := Option.bind_eq_some_iff.mp h
    split at h
    · cases h
      exact (Closes.refl p).finished
    · cases h
      exact (handleCancelled_closes now).finished
    · cases h
      exact (handleCancelled_closes now).finished
    · cases h
    · cases h
  | doneCallback i =>
    obtain ⟨k, -, h⟩ := Option.bind_eq_some_iff.mp h
    split at h
    · cases h
      have hreaped : p.Stretch (p.setPhase i .reaped) := (Closes.refl p).reaped
      exact ⟨⟨rfl, rfl, rfl⟩, hreaped.sleeping, .nothing rfl, .of_same rfl rfl⟩
    · cases h
  | call request taskId now => cases ha
  | check taskId => cases ha
  | cancel taskId now => cases ha
  | stop => cases ha
  | stopped => cases ha
  | reload workers recovery limits => cases ha

theorem schedule_phases {m : Manager} (task : TaskRecord) {i : ℕ} {k : Handle}
    (h : (m.schedule task).handles[i]? = some k) :
    k.phase = .created ∨ m.handles[i]? = some k := by
  have htrack : (m.track task.taskId).handles[i]? = some k →
      k.phase = .created ∨ m.handles[i]? = some k := by
    intro h
    change (m.handles ++ [⟨task.taskId, .created, false⟩])[i]? = some k at h
    rw [List.getElem?_append] at h
    split at h
    · exact Or.inr h
    · left
      rw [List.getElem?_singleton] at h
      split at h
      · cases h
        rfl
      · cases h
  unfold Manager.schedule at h
  split at h
  · split at h
    · exact htrack h
    · exact Or.inr h
  · exact htrack h

theorem schedule_settings (m : Manager) (task : TaskRecord) :
    m.SameSettings (m.schedule task) := by
  unfold Manager.schedule
  split
  · split <;> exact ⟨rfl, rfl, rfl⟩
  · exact ⟨rfl, rfl, rfl⟩

/-- The row that a call inserts, for what it asked. -/
structure Inserts (p : Process) (host : Host) (request : CallRequest) (taskId : String)
    (p' : Process) : Prop where
  past : p'.world.past = p.store :: p.world.past
  row : ∃ worker directory timeoutSeconds now, p.mgr.worker request.workerId = .ok worker ∧
    resolveWorkingDirectory host worker request.prompt = .ok directory ∧
    RowSet p.row p'.row taskId (TaskRecord.new taskId request.workerId request.prompt
      (some directory) request.idempotencyKey timeoutSeconds now)

structure Admits (p : Process) (host : Host) (request : CallRequest) (taskId : String)
    (p' : Process) : Prop where
  settings : p.mgr.SameSettings p'.mgr
  sleeping : p.Sleeps p'.mgr
  calls : p'.world.calls = p.world.calls
  rows : p'.world.store = p.world.store ∧ p'.world.past = p.world.past ∨
    p.Inserts host request taskId p'

theorem call_admits {host : Host} {request : CallRequest} {now : String} {response : Response}
    (hfresh : p.row taskId = none) (h : p.call host request taskId now = .ok (p', response)) :
    p.Admits host request taskId p' := by
  cases call_submits hfresh h with
  | refused => exact ⟨⟨rfl, rfl, rfl⟩, .of_handles rfl, rfl, Or.inl ⟨rfl, rfl⟩⟩
  | created worker directory task store hworker hdirectory _ htask hinsert =>
    have hid : task.taskId = taskId := by rw [htask]; rfl
    have hsame := schedule_settings { p.mgr with
      metrics := p.mgr.metrics.incTaskCreated request.workerId .async } task
    refine ⟨⟨hsame.workers, hsame.recovery, hsame.limits⟩, .of_phases ?_, rfl, Or.inr ⟨rfl, ?_⟩⟩
    · intro i k hat
      exact (schedule_phases task hat).imp id fun hk => ⟨k, hk, rfl⟩
    · refine ⟨worker, directory, worker.timeoutLimits.asyncSeconds, now, hworker, hdirectory, ?_⟩
      rw [← htask]
      exact RowSet.of_insert hid hinsert
  | known => exact ⟨⟨rfl, rfl, rfl⟩, .of_handles rfl, rfl, Or.inl ⟨rfl, rfl⟩⟩

/-- A caller's cancellation of the row of `taskId`, if it gets through. -/
structure Revokes (p : Process) (taskId : String) (p' : Process) : Prop where
  settings : p.mgr.SameSettings p'.mgr
  sleeping : p.Sleeps p'.mgr
  calls : p'.world.calls = p.world.calls
  writes : p.world.Writes (fun s => ∃ t r, p.row taskId = some t ∧ RowSet p.row s.get taskId r ∧
    t.Carries r) p'.world

theorem cancelTracked_phases {m : Manager} {i : ℕ} {k' : Handle}
    (h : (m.cancelTracked taskId).handles[i]? = some k') :
    ∃ k, m.handles[i]? = some k ∧ k'.phase = k.phase := by
  unfold Manager.cancelTracked at h
  simp only at h
  split at h
  · rw [List.getElem?_modify] at h
    obtain ⟨k, hk, rfl⟩ := Option.map_eq_some_iff.mp h
    refine ⟨k, hk, ?_⟩
    split
    · exact k.cancel_phase
    · rfl
  · exact ⟨k', h, rfl⟩

theorem cancel_revokes (taskId now : String) : p.Revokes taskId (p.cancel taskId now).1 := by
  have hidle : p.Revokes taskId p :=
    ⟨⟨rfl, rfl, rfl⟩, .of_handles rfl, rfl, .of_same rfl rfl⟩
  unfold cancel
  split
  · exact hidle
  · next task hrow =>
    split
    · exact hidle
    · have hphases : ∀ (i : ℕ) (k' : Handle), (p.mgr.cancelTracked taskId).handles[i]? = some k' →
          k'.phase = .created ∨ ∃ k, p.mgr.handles[i]? = some k ∧ k'.phase = k.phase :=
        fun _ _ hat => Or.inr (cancelTracked_phases hat)
      simp only
      split
      · next q hq =>
        unfold settle TaskRecord.transition at hq
        split at hq
        · simp only [bind, Except.bind] at hq
          split at hq
          · cases hq
          · next q' hu =>
            cases hq
            have hid : task.taskId = taskId := (Store.mem_of_get hrow).2
            have hself := row_self hrow
            obtain ⟨hmgr, hcalls, hpast, hset⟩ := upsert_puts hu hself
            refine ⟨?_, .of_phases ?_, hcalls, .of_write ?_ hpast⟩
            · rw [hmgr]
              exact ⟨rfl, rfl, rfl⟩
            · intro i k' hat
              rw [hmgr] at hat
              exact hphases i k' hat
            · subst hid
              exact ⟨task, _, hrow, hset, (TaskRecord.Carries.moveTo ..).keep _⟩
        · cases hq
      · exact ⟨⟨rfl, rfl, rfl⟩, .of_phases hphases, rfl, .of_same rfl rfl⟩

theorem stop_settings (p : Process) : p.mgr.SameSettings p.stop.mgr := by
  unfold stop
  split <;> exact ⟨rfl, rfl, rfl⟩

theorem stop_sleeps (p : Process) : p.Sleeps p.stop.mgr := by
  unfold stop
  split
  · exact .of_handles rfl
  · refine .of_phases fun i k' hat => Or.inr ?_
    change (p.mgr.handles.mapIdx _)[i]? = some k' at hat
    rw [List.getElem?_mapIdx] at hat
    obtain ⟨k, hk, rfl⟩ := Option.map_eq_some_iff.mp hat
    exact ⟨k, hk, k.ite_cancel_phase _⟩

end Process

end WorkerBridge
