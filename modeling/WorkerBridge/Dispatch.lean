import WorkerBridge.Effects

namespace WorkerBridge

open TaskState

def World.sent (w : World) (taskId : String) : ℕ :=
  w.calls.countP fun c => decide (c.taskId = taskId)

/-- What calls say of rows.  `once` are the keys of the tasks that recovery does
not replay. -/
structure SentOnce (once : Option String → Prop) (row : String → Option TaskRecord)
    (sent : String → ℕ) : Prop where
  unknown : ∀ id, row id = none → sent id = 0
  pending : ∀ id r, row id = some r → r.state = pending → sent id = 0
  most : ∀ id r, row id = some r → once r.idempotencyKey → sent id ≤ 1

/-- A coroutine that has not come to its call belongs to a task that may be sent. -/
def Fresh (once : Option String → Prop) (p : Process) : Prop :=
  ∀ (i : ℕ) (k : Handle) (r : TaskRecord), p.mgr.handles[i]? = some k → k.phase.unsent = true →
    p.row k.taskId = some r → once r.idempotencyKey → r.state ≠ recovering

variable {once : Option String → Prop}

theorem SentOnce.mono {row : String → Option TaskRecord} {sent sent' : String → ℕ}
    (h : SentOnce once row sent) (hle : ∀ id, sent' id ≤ sent id) : SentOnce once row sent' := by
  refine ⟨?_, ?_, ?_⟩
  · intro id hid
    have h0 := h.unknown id hid
    have := hle id
    omega
  · intro id r hr hp
    have h0 := h.pending id r hr hp
    have := hle id
    omega
  · intro id r hr ho
    have h1 := h.most id r hr ho
    have := hle id
    omega

theorem SentOnce.mark {w w' : World} (h : SentOnce once w.store.get w.sent) (hm : w.Marks w') :
    SentOnce once w'.store.get w'.sent := by
  have hsent : w'.sent = w.sent := by
    funext id
    unfold World.sent
    rw [hm.frame.2.2.1]
  rw [hsent]
  refine ⟨?_, ?_, ?_⟩
  · intro id hid
    rcases hm.row id with hs | ⟨r, r', -, hr', -⟩
    · exact h.unknown id (hs ▸ hid)
    · rw [hr'] at hid
      cases hid
  · intro id r hr hp
    rcases hm.row id with hs | ⟨s, s', -, hs', -, -, hrec, -⟩
    · exact h.pending id r (hs ▸ hr) hp
    · rw [hs'] at hr
      cases hr
      rw [hrec] at hp
      cases hp
  · intro id r hr ho
    rcases hm.row id with hs | ⟨s, s', hs, hs', -, -, -, hkey, -⟩
    · exact h.most id r (hs ▸ hr) ho
    · rw [hs'] at hr
      cases hr
      exact h.most id s hs (hkey ▸ ho)

namespace Process

variable {p p' : Process} {a : Action}

theorem Moves.sentOnce_of_quiet (h : SentOnce once p.row p.world.sent) (hm : p.Moves a p') :
    SentOnce once p'.row p.world.sent := by
  -- No call is made, so only the rows and the coroutines have to be compared.
  refine ⟨?_, ?_, ?_⟩
  · intro id hid
    have hr := hm.row id
    rw [hid] at hr
    generalize hold : p.row id = old at hr
    cases hr with
    | same => exact h.unknown id hold
  · intro id r hr hp
    have hmove := hm.row id
    rw [hr] at hmove
    generalize hold : p.row id = old at hmove
    cases hmove with
    | same => exact h.pending id r hold hp
    | new => exact h.unknown id hold
    | change _ hs =>
      rw [hp] at hs
      exact absurd (by decide) hs
  · intro id r hr ho
    have hmove := hm.row id
    rw [hr] at hmove
    generalize hold : p.row id = old at hmove
    cases hmove with
    | same => exact h.most id r hold ho
    | new =>
      have h0 := h.unknown id hold
      omega
    | change _ _ hkey => exact h.most id _ hold (hkey ▸ ho)

theorem Moves.sentOnce (h : SentOnce once p.row p.world.sent) (hf : Fresh once p)
    (hm : p.Moves a p') : SentOnce once p'.row p'.world.sent := by
  have hquiet := hm.sentOnce_of_quiet h
  rcases hm.calls with hc | ⟨i, k, k', r, r', c, hsend⟩
  · have hsent : p'.world.sent = p.world.sent := by
      funext id
      unfold World.sent
      rw [hc]
    exact hsent ▸ hquiet
  · -- The call is for a row that was queued and now is running.
    have hself : p'.world.sent k.taskId = p.world.sent k.taskId + 1 := by
      unfold World.sent
      rw [hsend.calls, List.countP_cons, hsend.callTaskId]
      simp
    have hother : ∀ id, id ≠ k.taskId → p'.world.sent id = p.world.sent id := by
      intro id hne
      unfold World.sent
      rw [hsend.calls, List.countP_cons, hsend.callTaskId]
      simp [hne.symm]
    refine ⟨?_, ?_, ?_⟩
    · intro id hid
      have hne : id ≠ k.taskId := by
        intro he
        rw [he, hsend.row'] at hid
        cases hid
      rw [hother id hne]
      exact hquiet.unknown id hid
    · intro id s hs hp
      have hne : id ≠ k.taskId := by
        intro he
        rw [he, hsend.row'] at hs
        cases hs
        rw [hsend.running'] at hp
        cases hp
      rw [hother id hne]
      exact hquiet.pending id s hs hp
    · intro id s hs ho
      by_cases hid : id = k.taskId
      · subst hid
        rw [hsend.row'] at hs
        cases hs
        rw [hsend.key'] at ho
        have hne := hf i k r hsend.handle hsend.unsent hsend.row ho
        have hpend : r.state = TaskState.pending := by
          have hq := hsend.queued
          revert hq hne
          cases r.state <;> decide
        have h0 := h.pending _ r hsend.row hpend
        omega
      · rw [hother id hid]
        exact hquiet.most id s hs ho

theorem Moves.fresh (hf : Fresh once p) (hm : p.Moves a p') : Fresh once p' := by
  intro i k' r hk hu hr ho hrec
  have hrow : p.row k'.taskId = some r := hm.row_of_recovering hr hrec
  rcases hm.handle_old hk with ⟨k, hk', hmove⟩ | hnone
  · rw [hmove.taskId] at hrow
    exact hf i k r hk' (hmove.unsent hu) hrow ho hrec
  · rw [hnone] at hrow
    cases hrow

end Process

/-- Recovery replays no interrupted task with a key in `once`. -/
def noReplay (once : Option String → Prop) : Allowed where
  settings settings := ∀ r : TaskRecord, once r.idempotencyKey → r.state = recovering →
    recoveryAllowsReplay settings.recovery r = false
  action _ _ := True

theorem sentOnce_rule (once : Option String → Prop) : Rule (noReplay once)
    (fun w => SentOnce once w.store.get w.sent)
    (fun p => SentOnce once p.row p.world.sent ∧ Fresh once p) where
  empty := by
    refine ⟨fun _ _ => rfl, fun _ _ _ _ => rfl, fun _ _ _ _ => Nat.zero_le _⟩
  mark _ hd hm := hd.mark hm
  boot := by
    intro w settings ready p hset _ hd hb
    refine ⟨?_, ?_⟩
    · rw [hb.row, hb.world]
      exact hd
    · intro i k r hk _ hr ho hrec
      obtain ⟨t, ht, rfl⟩ := hb.at_iff.mp hk
      obtain ⟨hrow, hstart⟩ := (hb.mem t).mp (List.mem_of_getElem? ht)
      rw [hb.row, hrow] at hr
      cases hr
      unfold Process.startSchedules at hstart
      simp [hrec, hset r ho hrec] at hstart
  move _ _ hu hm := ⟨hm.sentOnce hu.1 hu.2, hm.fresh hu.2⟩
  world _ hu := hu.1
  forget := by
    intro w calls answers hd hc _
    exact hd.mono fun id => hc.sublist.countP_le

theorem sentOnce_of_reachable {host : Host} {b : Bridge}
    (h : (Bridge.machine host).Reachable (noReplay once).ok b) :
    SentOnce once b.world.store.get b.world.sent := by
  have hb := (sentOnce_rule once).holds h
  cases b with
  | down w => exact hb.2
  | up p => exact hb.2.1

def Keyless (key : Option String) : Prop := key = none ∨ key = some ""

/-- The runs in which each process has one of these recovery policies. -/
def policies (allowed : List RecoveryPolicy) : Allowed where
  settings settings := settings.recovery.policy ∈ allowed
  action _ _ := True

instance (allowed : List RecoveryPolicy) : DecidablePred (policies allowed).settings :=
  fun settings => inferInstanceAs (Decidable (settings.recovery.policy ∈ allowed))

instance (allowed : List RecoveryPolicy) (p : Process) (a : Action) :
    Decidable ((policies allowed).action p a) :=
  isTrue trivial

theorem ok_mono {A B : Allowed} (hs : ∀ settings, A.settings settings → B.settings settings)
    (ha : ∀ p a, A.action p a → B.action p a) (b : Bridge) (e : Event) (h : A.ok b e) :
    B.ok b e := by
  cases b <;> cases e <;> first | exact hs _ h | exact ha _ _ h | trivial

theorem manual_noReplay {recovery : RecoveryConfig} {r : TaskRecord}
    (hp : recovery.policy = .manual) (hs : r.state = recovering) :
    recoveryAllowsReplay recovery r = false := by
  unfold recoveryAllowsReplay
  rw [hp]
  simp only [hs]
  decide

theorem keyless_noReplay {recovery : RecoveryConfig} {r : TaskRecord}
    (hp : recovery.policy ∈ [RecoveryPolicy.manual, .idempotent]) (hk : Keyless r.idempotencyKey)
    (hs : r.state = recovering) : recoveryAllowsReplay recovery r = false := by
  cases hpol : recovery.policy with
  | manual => exact manual_noReplay hpol hs
  | idempotent =>
    unfold recoveryAllowsReplay
    rw [hpol]
    rcases hk with hk | hk <;> simp [hk]
  | always =>
    rw [hpol] at hp
    exact absurd hp (by decide)

/-- A task without a key is sent at most once under `manual` and `idempotent`,
and every task under `manual`, over any number of crashes and restarts. -/
theorem dispatched_at_most_once {host : Host} {b : Bridge} :
    ((Bridge.machine host).Reachable (policies [.manual, .idempotent]).ok b →
      ∀ id r, b.world.store.get id = some r → Keyless r.idempotencyKey → b.world.sent id ≤ 1) ∧
    ((Bridge.machine host).Reachable (policies [.manual]).ok b → ∀ id, b.world.sent id ≤ 1) := by
  refine ⟨?_, ?_⟩
  · intro h id r hr hk
    have hok : ∀ b e, (policies [.manual, .idempotent]).ok b e → (noReplay Keyless).ok b e :=
      ok_mono (fun _ hs r hk hrec => keyless_noReplay hs hk hrec) fun _ _ _ => trivial
    exact (sentOnce_of_reachable (h.mono hok)).most id r hr hk
  · intro h id
    have hok : ∀ b e, (policies [.manual]).ok b e → (noReplay fun _ => True).ok b e :=
      ok_mono (fun _ hs r _ hrec => manual_noReplay (List.mem_singleton.mp hs) hrec)
        fun _ _ _ => trivial
    have hsent := sentOnce_of_reachable (h.mono hok)
    cases hr : b.world.store.get id with
    | none =>
      rw [hsent.unknown id hr]
      exact Nat.zero_le _
    | some r => exact hsent.most id r hr trivial

/-- A task sent before a crash, with `manual` on both sides of it. -/
theorem dispatched_at_most_once_manual : ∃ b : Bridge, b.world.lifetimes = 2 ∧
    b.world.sent "a" = 1 ∧ (∀ id, b.world.sent id ≤ 1) ∧
    ∀ id r, b.world.store.get id = some r → Keyless r.idempotencyKey → b.world.sent id ≤ 1 := by
  obtain ⟨b, hb, hp⟩ := Runs.Machine.exists_reachable_of_run (Bridge.machine Sample.host)
    (policies [.manual]).ok
    [.start (Sample.settings .manual 0) "t0", Sample.call "a" none, .act (.resume 0 "r" "t1"),
      .crash, .start (Sample.settings .manual 0) "t2"]
    (fun b => decide (b.world.lifetimes = 2) && decide (b.world.sent "a" = 1)) (by decide)
  rw [Bool.and_eq_true, decide_eq_true_iff, decide_eq_true_iff] at hp
  have hmono : ∀ b e, (policies [.manual]).ok b e → (policies [.manual, .idempotent]).ok b e :=
    ok_mono (fun _ hs => List.mem_cons.mpr (Or.inl (List.mem_singleton.mp hs))) fun _ _ _ => trivial
  exact ⟨b, hp.1, hp.2, dispatched_at_most_once.2 hb, dispatched_at_most_once.1 (hb.mono hmono)⟩

end WorkerBridge
