import WorkerBridge.Effects
import WorkerBridge.Shutdown

namespace WorkerBridge

open TaskState

def Action.stops : Action → Bool
  | .stop => true
  | _ => false

namespace Process

/-- The runs of the process `p`, without the crash that ends them. -/
def lifetime (host : Host) (p : Process) : Runs.Machine Process Action :=
  ⟨p, fun q a => q.act host a⟩

variable {host : Host} {p q : Process} {ok : Process → Action → Prop}

theorem lifetime_inv (hi : p.Inv) (h : (p.lifetime host).Reachable ok q) : q.Inv := by
  refine h.invariant hi ?_
  intro s a s' _ hs hstep
  exact (act_moves hs hstep).inv hs

theorem leads_of_lifetime (h : (p.lifetime host).Reachable ok q) :
    (Bridge.machine host).Leads Runs.anyStep (.up p) (.up q) := by
  refine Runs.Machine.Reachable.invariant
    (I := fun s => (Bridge.machine host).Leads Runs.anyStep (.up p) (.up s)) h
    Relation.ReflTransGen.refl ?_
  intro s a s' _ hs hstep
  refine Relation.ReflTransGen.tail hs ⟨.act a, trivial, ?_⟩
  show (s.act host a).map Bridge.up = some (.up s')
  rw [show s.act host a = some s' from hstep]
  rfl

theorem started_reachable {w : World} {settings : Settings} {now : String}
    (hw : (Bridge.machine host).Reachable Runs.anyStep (.down w))
    (hp : Bridge.started w settings now = some p) :
    (Bridge.machine host).Reachable Runs.anyStep (.up p) := by
  refine hw.next (a := .start settings now) trivial ?_
  show (Bridge.started w settings now).map Bridge.up = some (.up p)
  rw [hp]
  rfl

theorem started_inv {w : World} {settings : Settings} {now : String}
    (hw : (Bridge.machine host).Reachable Runs.anyStep (.down w))
    (hp : Bridge.started w settings now = some p) : p.Inv :=
  inv_of_reachable (started_reachable hw hp)

def unstopped (_ : Process) (a : Action) : Prop := a.stops = false

instance (q : Process) (a : Action) : Decidable (unstopped q a) :=
  inferInstanceAs (Decidable (a.stops = false))

theorem unstopped_started (hs : p.mgr.started = true ∧ p.mgr.gathering = none)
    (h : (p.lifetime host).Reachable unstopped q) (hi : p.Inv) :
    q.mgr.started = true ∧ q.mgr.gathering = none := by
  refine h.invariant' (I := fun s => s.mgr.started = true ∧ s.mgr.gathering = none) hs ?_
  intro s a s' hreach hok hu hstep
  have hm := act_moves (lifetime_inv hi hreach) hstep
  have h1 : a ≠ .stop := by
    rintro rfl
    cases hok
  have h2 : a ≠ .stopped := by
    rintro rfl
    simp only [lifetime, act, hu.2] at hstep
    cases hstep
  obtain ⟨he, hg⟩ := hm.started h1 h2
  rw [he, hg]
  exact hu

/-- A coroutine of the task that is not done is in the dictionary. -/
def Holds (p : Process) (taskId : String) : Prop :=
  ∃ (i : ℕ) (k : Handle), (taskId, i) ∈ p.mgr.background ∧ p.mgr.handles[i]? = some k ∧
    k.taskId = taskId ∧ k.phase.done = false

theorem holds_of_at (hl : Live p.row p.mgr) {i : ℕ} {k : Handle} {taskId : String}
    (hat : p.mgr.handles[i]? = some k) (hid : k.taskId = taskId) (hd : k.phase.done = false) :
    p.Holds taskId :=
  ⟨i, k, hid ▸ hl.tracked i k hat hd, hat, hid, hd⟩

theorem holds_of_unsettled (hi : p.Inv) (hl : Live p.row p.mgr) {taskId : String} {r : TaskRecord}
    (hrow : p.row taskId = some r) (hs : r.state = pending ∨ r.state = running) :
    p.Holds taskId := by
  rcases hs with hs | hs
  · obtain ⟨i, k, hat, hid, hd⟩ := hl.held taskId r hrow hs
    exact holds_of_at hl hat hid hd
  · obtain ⟨i, k, hat, hid, hph⟩ := hi.coherent.runningHeld taskId r hrow hs
    exact holds_of_at hl hat hid (by rw [hph]; rfl)

theorem hasActiveTasks_of_holds {taskId : String} (h : p.Holds taskId) :
    p.mgr.hasActiveTasks = true := by
  obtain ⟨i, k, hin, hat, -, hd⟩ := h
  refine List.any_eq_true.mpr ⟨_, hin, ?_⟩
  unfold Manager.done
  rw [hat]
  simp only [hd, Bool.not_false]

/-- What recovery put off when `p` started is as it was then. -/
def Deferred (recovery : RecoveryConfig) (p q : Process) : Prop :=
  ∀ id r, q.row id = some r → r.state = recovering →
    q.Holds id ∨ (p.row id = some r ∧ recoveryAllowsReplay recovery r = false)

theorem booted_deferred {w : World} {settings : Settings} {ready : List TaskRecord}
    (hl : Live p.row p.mgr) (hb : Booted w settings ready p) :
    Deferred settings.recovery p p := by
  intro id r hrow hrec
  by_cases hr : recoveryAllowsReplay settings.recovery r = true
  · have hid := taskId_of_row hrow
    have hstart : startSchedules settings.recovery r = true := by
      unfold startSchedules
      rw [hr, hrec]
      decide
    have hin : r ∈ ready := (hb.mem r).mpr ⟨by rw [hid, ← hb.row, hrow], hstart⟩
    obtain ⟨i, hat⟩ := List.getElem?_of_mem hin
    exact Or.inl (holds_of_at hl (hb.at_iff.mpr ⟨r, hat, rfl⟩) hid rfl)
  · exact Or.inr ⟨hrow, Bool.eq_false_iff.mpr hr⟩

theorem Moves.deferred {recovery : RecoveryConfig} {q' : Process} {a : Action} (hi : q.Inv)
    (hl : Live q.row q.mgr) (hl' : Live q'.row q'.mgr) (hm : q.Moves a q')
    (hu : Deferred recovery p q) : Deferred recovery p q' := by
  intro id r hrow hrec
  have hold := hm.row_of_recovering hrow hrec
  rcases hu id r hold hrec with ⟨i, k, -, hat, hid, hd⟩ | hput
  · -- Its coroutine goes on, or it ends with a terminal row.
    rcases hm.handle_live hi hl hat hd with ⟨k', hat', hid', hd'⟩ | ⟨s, hs, hterm⟩
    · exact Or.inl (holds_of_at hl' hat' (hid'.trans hid) hd')
    · rw [hid, hrow] at hs
      cases hs
      rw [hrec] at hterm
      exact absurd hterm (by decide)
  · exact Or.inr hput

theorem deferred_of_reachable {recovery : RecoveryConfig} (hi : p.Inv)
    (hs : p.mgr.started = true ∧ p.mgr.gathering = none) (h0 : Deferred recovery p p)
    (h : (p.lifetime host).Reachable unstopped q) : Deferred recovery p q := by
  have hlive : ∀ {s : Process}, (p.lifetime host).Reachable unstopped s → Live s.row s.mgr := by
    intro s hreach
    obtain ⟨hst, hg⟩ := unstopped_started hs hreach hi
    exact (lifetime_inv hi hreach).coherent.live hst hg
  refine h.invariant' h0 ?_
  intro s a s' hreach hok hu hstep
  have hsi := lifetime_inv hi hreach
  exact (act_moves hsi hstep).deferred hsi (hlive hreach) (hlive (hreach.next hok hstep)) hu

end Process

/-- In a started process that nobody stops no row is orphaned, and no task has two
coroutines.  Without active tasks nothing is pending or running. -/
theorem no_orphans {host : Host} {w : World} {settings : Settings} {now : String}
    {p q : Process} (hw : (Bridge.machine host).Reachable Runs.anyStep (.down w))
    (hp : Bridge.started w settings now = some p)
    (hq : (p.lifetime host).Reachable Process.unstopped q) :
    (∀ id r, q.row id = some r → r.state = pending ∨ r.state = running → q.Holds id) ∧
    (∀ (i j : ℕ) (h k : Handle), q.mgr.handles[i]? = some h → q.mgr.handles[j]? = some k →
      h.phase.done = false → k.phase.done = false → h.taskId = k.taskId → i = j) ∧
    (∀ id r, q.row id = some r → r.state = recovering →
      q.Holds id ∨ (p.row id = some r ∧ recoveryAllowsReplay settings.recovery r = false)) ∧
    (q.mgr.hasActiveTasks = false →
      ∀ id r, q.row id = some r → r.state ≠ pending ∧ r.state ≠ running) := by
  have hi : p.Inv := Process.started_inv hw hp
  obtain ⟨w', ready, -, hb⟩ := started_booted hp
  have hs : p.mgr.started = true ∧ p.mgr.gathering = none := by
    rw [hb.mgr]
    exact ⟨rfl, rfl⟩
  have hqi : q.Inv := Process.lifetime_inv hi hq
  obtain ⟨hqs, hqg⟩ := Process.unstopped_started hs hq hi
  have hl : Live q.row q.mgr := hqi.coherent.live hqs hqg
  have hheld : ∀ id r, q.row id = some r → r.state = pending ∨ r.state = running → q.Holds id :=
    fun id r hrow hst => Process.holds_of_unsettled hqi hl hrow hst
  refine ⟨hheld, ?_, ?_, ?_⟩
  · intro i j h k hat hat' _ _ hid
    exact hqi.coherent.inj i j h k hat hat' hid
  · have h0 := Process.booted_deferred (hi.coherent.live hs.1 hs.2) hb
    exact Process.deferred_of_reachable hi hs h0 hq
  · intro hnone id r hrow
    have hno : ¬ (r.state = pending ∨ r.state = running) := by
      intro hst
      rw [Process.hasActiveTasks_of_holds (hheld id r hrow hst)] at hnone
      cases hnone
    exact not_or.mp hno

/-- A crash, a restart under `idempotent` that puts off one task and sends another,
and a third task. -/
theorem no_orphans_restart : ∃ p q : Process,
    (q.row "a").map TaskRecord.state = some recovering ∧
      (q.Holds "a" ∨ ∃ r, p.row "a" = some r ∧
        recoveryAllowsReplay ⟨.idempotent, 0⟩ r = false) ∧
      q.Holds "b" ∧ q.Holds "c" := by
  have hrun : ∃ b, (Bridge.machine Sample.host).Reachable Runs.anyStep b ∧ _ :=
    Runs.Machine.exists_reachable_of_run (Bridge.machine Sample.host) Runs.anyStep
      [.start (Sample.settings .idempotent 0) "t0", Sample.call "a" none,
        Sample.call "b" (some "K"), .act (.resume 0 "r" "t1"), .act (.resume 1 "s" "t2"), .crash]
      (fun b => match b with
        | .up _ => false
        | .down w => decide (((Bridge.started w (Sample.settings .idempotent 0) "t3").bind fun p =>
            ((p.lifetime Sample.host).run Process.unstopped p
              [.resume 0 "u" "t4", .call ⟨"w", Sample.prompt, none⟩ "c" "t5"]).map fun q =>
                ["a", "b", "c"].map fun id => (q.row id).map TaskRecord.state) =
          some [some recovering, some running, some pending])) (by decide)
  obtain ⟨b, hb, hcheck⟩ := hrun
  cases b with
  | up p => cases hcheck
  | down w =>
    rw [decide_eq_true_iff] at hcheck
    obtain ⟨p, hp, hq⟩ := Option.bind_eq_some_iff.mp hcheck
    obtain ⟨q, hrun, hstates⟩ := Option.map_eq_some_iff.mp hq
    have hreach := Runs.Machine.reachable_of_run (M := p.lifetime Sample.host) hrun
    obtain ⟨hheld, -, hput, -⟩ := no_orphans hb hp hreach
    simp only [List.map_cons, List.map_nil, List.cons.injEq, and_true] at hstates
    obtain ⟨ha, hbs, hc⟩ := hstates
    obtain ⟨r, hr, hrs⟩ := Option.map_eq_some_iff.mp ha
    obtain ⟨s, hs, hss⟩ := Option.map_eq_some_iff.mp hbs
    obtain ⟨t, ht, hts⟩ := Option.map_eq_some_iff.mp hc
    refine ⟨p, q, ha, ?_, hheld "b" s hs (Or.inr hss), hheld "c" t ht (Or.inl hts)⟩
    exact (hput "a" r hr hrs).imp_right fun h => ⟨r, h⟩

end WorkerBridge
