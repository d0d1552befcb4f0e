import WorkerBridge.Dispatch

namespace WorkerBridge

open TaskState

/-- Two answers name one task exactly when they are for one usable key. -/
def Answer.Agree (a a' : Answer) : Prop :=
  a.taskId = a'.taskId ↔ a.idempotencyKey = a'.idempotencyKey ∧ ¬ Keyless a.idempotencyKey

/-- Every answer names a row with its key, and the answers agree. -/
structure World.Answered (w : World) : Prop where
  rows : ∀ a ∈ w.answers, ∃ r, w.store.get a.taskId = some r ∧
    r.idempotencyKey = a.idempotencyKey
  agree : w.answers.Pairwise Answer.Agree

def World.sentIn (w : World) (lifetime : ℕ) (taskId : String) : ℕ :=
  w.calls.countP fun c => decide (c.lifetime = lifetime ∧ c.taskId = taskId)

structure World.SentPerLifetime (w : World) : Prop where
  past : ∀ c ∈ w.calls, c.lifetime ≤ w.lifetimes
  most : ∀ n id, w.sentIn n id ≤ 1

/-- A call of this process came from a coroutine that is past its call. -/
def Process.Sent (p : Process) : Prop :=
  ∀ c ∈ p.world.calls, c.lifetime = p.world.lifetimes →
    ∃ (i : ℕ) (k : Handle), p.mgr.handles[i]? = some k ∧ k.taskId = c.taskId ∧
      k.phase.unsent = false

namespace Process

variable {p p' : Process} {a : Action}

theorem RowMove.key {row row' : Option TaskRecord} {r : TaskRecord} (h : RowMove row row')
    (hr : row = some r) : ∃ r', row' = some r' ∧ r'.idempotencyKey = r.idempotencyKey := by
  subst hr
  cases h with
  | same => exact ⟨r, rfl, rfl⟩
  | @change _ r' _ _ hkey => exact ⟨r', rfl, hkey⟩

theorem Moves.answered (h : p.world.Answered) (hm : p.Moves a p') : p'.world.Answered := by
  have hold : ∀ a ∈ p.world.answers, ∃ r, p'.row a.taskId = some r ∧
      r.idempotencyKey = a.idempotencyKey := by
    intro a ha
    obtain ⟨r, hr, hk⟩ := h.rows a ha
    obtain ⟨r', hr', hk'⟩ := (hm.row a.taskId).key hr
    exact ⟨r', hr', hk'.trans hk⟩
  rcases hm.answers with ha | ⟨key, r, hkey, hr', ha, hcase⟩
  · exact ⟨ha ▸ hold, ha ▸ h.agree⟩
  · refine ⟨?_, ?_⟩
    · rw [ha]
      intro b hb
      rcases List.mem_cons.mp hb with rfl | hb
      · exact ⟨r, hr', hkey⟩
      · exact hold b hb
    · rw [ha, List.pairwise_cons]
      refine ⟨?_, h.agree⟩
      intro b hb
      obtain ⟨s, hs, hsk⟩ := h.rows b hb
      unfold Answer.Agree
      rcases hcase with ⟨hr, hnone, hempty⟩ | ⟨hnew, hfirst⟩
      · -- A replay: the key belongs to one row.
        constructor
        · intro hid
          have hid' : r.taskId = b.taskId := hid
          rw [hid'] at hr
          obtain rfl : s = r := Option.some.inj (hs.symm.trans hr)
          refine ⟨hkey.symm.trans hsk, ?_⟩
          rintro (hk | hk)
          · exact hnone hk
          · exact hempty hk
        · rintro ⟨hk, -⟩
          obtain ⟨hrm, -⟩ := Store.mem_of_get hr
          obtain ⟨hsm, hsid⟩ := Store.mem_of_get hs
          have he : r = s := Table.eq_of_unique_eq p.world.store.unique hrm hsm
            (by rw [hkey]; exact hnone) (hkey.trans (hk.trans hsk.symm))
          rw [he]
          exact hsid
      · -- A new row: its id and its key are in no earlier answer.
        constructor
        · intro hid
          have hid' : r.taskId = b.taskId := hid
          rw [hid'] at hnew
          cases hs.symm.trans hnew
        · rintro ⟨hk, husable⟩
          cases hsome : key with
          | none => exact absurd (Or.inl hsome) husable
          | some k =>
            obtain ⟨hsm, -⟩ := Store.mem_of_get hs
            have hfree := Store.getByIdempotencyKey_eq_none.mp (hfirst k hsome) s hsm
            exact absurd (hsk.trans (hk.symm.trans hsome)) hfree

theorem Moves.lifetimes (h : p.Moves a p') : p'.world.lifetimes = p.world.lifetimes :=
  h.extends.lifetimes

theorem Moves.sentPerLifetime (hi : p.Inv) (h : p.world.SentPerLifetime) (hs : p.Sent)
    (hm : p.Moves a p') : p'.world.SentPerLifetime ∧ p'.Sent := by
  -- A coroutine that is past its call stays so.
  have hstay : ∀ c ∈ p.world.calls, c.lifetime = p.world.lifetimes →
      ∃ (i : ℕ) (k : Handle), p'.mgr.handles[i]? = some k ∧ k.taskId = c.taskId ∧
        k.phase.unsent = false := by
    intro c hc hl
    obtain ⟨i, k, hat, hid, hu⟩ := hs c hc hl
    obtain ⟨k', hat', hmove⟩ := hm.handle hat
    refine ⟨i, k', hat', hmove.taskId.trans hid, ?_⟩
    cases hu' : k'.phase.unsent with
    | false => rfl
    | true =>
      rw [hmove.unsent hu'] at hu
      cases hu
  rcases hm.calls with hc | ⟨i, k, k', r, r', c, hsend⟩
  · refine ⟨⟨?_, ?_⟩, ?_⟩
    · rw [hc, hm.lifetimes]
      exact h.past
    · intro n id
      unfold World.sentIn
      rw [hc]
      exact h.most n id
    · unfold Sent
      rw [hc, hm.lifetimes]
      exact hstay
  · refine ⟨⟨?_, ?_⟩, ?_⟩
    · rw [hsend.calls, hm.lifetimes]
      intro d hd
      rcases List.mem_cons.mp hd with rfl | hd
      · exact hsend.callLifetime.le
      · exact h.past d hd
    · intro n id
      unfold World.sentIn
      rw [hsend.calls, List.countP_cons]
      by_cases hthis : c.lifetime = n ∧ c.taskId = id
      · -- A second call would have come from this very coroutine.
        have hzero : p.world.sentIn n id = 0 := by
          unfold World.sentIn
          rw [List.countP_eq_zero]
          intro d hd hd'
          rw [decide_eq_true_iff] at hd'
          obtain ⟨hl, hid⟩ := hthis
          obtain ⟨j, l, hat, hlid, hu⟩ := hs d hd
            (hd'.1.trans (hl.symm.trans hsend.callLifetime))
          have hij : j = i := hi.coherent.inj j i l k hat hsend.handle
            (hlid.trans (hd'.2.trans (hid.symm.trans hsend.callTaskId)))
          subst hij
          rw [hsend.handle] at hat
          cases hat
          rw [hsend.unsent] at hu
          cases hu
        unfold World.sentIn at hzero
        rw [hzero, if_pos (decide_eq_true hthis)]
      · rw [if_neg (by simpa using hthis)]
        exact h.most n id
    · unfold Sent
      rw [hsend.calls, hm.lifetimes]
      intro d hd hl
      rcases List.mem_cons.mp hd with rfl | hd
      · exact ⟨i, k', hsend.handle', hsend.taskId'.trans hsend.callTaskId.symm, hsend.sent'⟩
      · exact hstay d hd hl

end Process

theorem World.Answered.mark {w w' : World} (h : w.Answered) (hm : w.Marks w') : w'.Answered := by
  obtain ⟨-, -, -, ha⟩ := hm.frame
  refine ⟨?_, ha ▸ h.agree⟩
  rw [ha]
  intro a hmem
  obtain ⟨r, hr, hk⟩ := h.rows a hmem
  rcases hm.row a.taskId with hs | ⟨s, s', hs, hs', -, -, -, hkey, -⟩
  · exact ⟨r, by rw [hs, hr], hk⟩
  · rw [hr] at hs
    cases hs
    exact ⟨s', hs', hkey.trans hk⟩

theorem answered_rule : Rule Allowed.any World.Answered fun p => p.world.Answered where
  empty := ⟨nofun, List.Pairwise.nil⟩
  mark _ hd hm := hd.mark hm
  boot := by
    intro w settings ready p _ _ hd hb
    rw [hb.world]
    exact ⟨hd.rows, hd.agree⟩
  move _ _ hu hm := hm.answered hu
  world _ hu := hu
  forget := by
    intro w calls answers hd _ ha
    exact ⟨fun a hmem => hd.rows a (ha.subset hmem), hd.agree.sublist ha.sublist⟩

theorem sentPerLifetime_rule : Rule Allowed.any World.SentPerLifetime
    fun p => p.world.SentPerLifetime ∧ p.Sent where
  empty := ⟨nofun, fun _ _ => Nat.zero_le _⟩
  mark := by
    intro w w' _ hd hm
    obtain ⟨-, hl, hc, -⟩ := hm.frame
    refine ⟨?_, ?_⟩
    · rw [hc, hl]
      exact hd.past
    · intro n id
      unfold World.sentIn
      rw [hc]
      exact hd.most n id
  boot := by
    intro w settings ready p _ _ hd hb
    rw [Process.Sent, hb.world]
    refine ⟨⟨?_, hd.most⟩, ?_⟩
    · intro c hc
      exact (hd.past c hc).trans (Nat.le_succ _)
    · -- No call has the number of the new process.
      intro c hc hl
      have hle := hd.past c hc
      simp only at hl
      omega
  move _ hi hu hm := hm.sentPerLifetime hi hu.1 hu.2
  world _ hu := hu.1
  forget := by
    intro w calls answers hd hc _
    exact ⟨fun c hmem => hd.past c (hc.subset hmem),
      fun n id => (hc.sublist.countP_le).trans (hd.most n id)⟩

theorem Store.countP_key_le_one (st : Store) (key : String) :
    st.rows.countP (fun r => decide (r.idempotencyKey = some key)) ≤ 1 := by
  have hunique := st.unique
  generalize st.rows = rows at hunique
  induction rows with
  | nil => exact Nat.zero_le _
  | cons r rest ih =>
    obtain ⟨hr, hrest⟩ := List.pairwise_cons.mp hunique
    rw [List.countP_cons]
    by_cases hk : r.idempotencyKey = some key
    · have hzero : rest.countP (fun r => decide (r.idempotencyKey = some key)) = 0 := by
        rw [List.countP_eq_zero]
        intro s hs hsk
        rw [decide_eq_true_iff] at hsk
        exact hr s hs (by rw [hk]; exact Option.some_ne_none _) (hk.trans hsk.symm)
      rw [hzero, if_pos (decide_eq_true hk)]
    · rw [if_neg (by simpa using hk)]
      exact ih hrest

/-- One row, one task id and, in each process, one call for each usable key. -/
theorem key_agreement {host : Host} {b : Bridge}
    (h : (Bridge.machine host).Reachable Runs.anyStep b) :
    (∀ st ∈ b.world.versions, ∀ key,
      st.rows.countP (fun r => decide (r.idempotencyKey = some key)) ≤ 1) ∧
    b.world.answers.Pairwise Answer.Agree ∧
    ∀ lifetime taskId, b.world.sentIn lifetime taskId ≤ 1 := by
  have hany : (Bridge.machine host).Reachable Allowed.any.ok b :=
    h.mono fun _ _ _ => Allowed.any_ok
  refine ⟨fun st _ key => st.countP_key_le_one key, ?_, ?_⟩
  · have hb := answered_rule.holds hany
    cases b with
    | down w => exact hb.2.agree
    | up p => exact hb.2.agree
  · have hb := sentPerLifetime_rule.holds hany
    cases b with
    | down w => exact hb.2.most
    | up p => exact hb.2.1.most

/-- Two calls with one key, one before and one after a crash, and one without. -/
theorem key_agreement_restart : ∃ b : Bridge,
    b.world.answers.map Answer.taskId = ["a", "c", "a"] ∧
      b.world.answers.Pairwise Answer.Agree ∧ b.world.sentIn 2 "a" ≤ 1 := by
  obtain ⟨b, hb, hp⟩ := Runs.Machine.exists_reachable_of_run (Bridge.machine Sample.host)
    Runs.anyStep
    [.start (Sample.settings .always 0) "t0", Sample.call "a" (some "K"),
      .act (.resume 0 "r" "t1"), Sample.call "c" none, .crash,
      .start (Sample.settings .always 0) "t2", .act (.resume 0 "s" "t3"),
      Sample.call "d" (some "K")]
    (fun b => decide (b.world.answers.map Answer.taskId = ["a", "c", "a"])) (by decide)
  rw [decide_eq_true_iff] at hp
  exact ⟨b, hp, (key_agreement hb).2.1, (key_agreement hb).2.2 2 "a"⟩

end WorkerBridge
