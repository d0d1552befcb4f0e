import WorkerBridge.Progress
import WorkerBridge.SyncCalls

namespace WorkerBridge

namespace SyncManager

variable {s s' : SyncManager} {t : Traffic} {host : Host} {workers : List WorkerConfig}
  {limits : LimitsConfig} {i j : ℕ} {caller : SyncCaller} {c : Call} {e : SyncEvent}

/-- The ticket a caller waits with at `_sync_limit`, and whether it has been cancelled. -/
def ticket (caller : SyncCaller) : Option (ℕ × Bool) :=
  match caller.stage with
  | .waiting ticket => some (ticket, caller.cancelRequested)
  | .admitted | .calling _ | .ended _ => none

/-- The clients of `_sync_limit` are the callers that wait for it, and every call that is
not over is that of a caller, which alone can cancel it. -/
structure Held (s : SyncManager) : Prop where
  calls : s.traffic.Sound
  serves : s.syncLimit.Serves (FifoSemaphore.clientsOf ticket s.callers)
  owned : ∀ (j : ℕ) (c : Call), s.traffic.calls[j]? = some c → c.phase.isEnded = false →
    ∃ (i : ℕ) (d : SyncCaller), s.callers[i]? = some d ∧ d.stage = .calling j
  heeded : ∀ (i j : ℕ) (d : SyncCaller) (c : Call), s.callers[i]? = some d →
    d.stage = .calling j → s.traffic.calls[j]? = some c → c.cancelRequested = true →
      d.cancelRequested = true

/-- Between two steps nobody is on the way from one semaphore to the other. -/
def Rested (s : SyncManager) : Prop :=
  ∀ (i : ℕ) (d : SyncCaller), s.callers[i]? = some d → d.stage ≠ .admitted

theorem ticket_of_stage (h : ∀ t, caller.stage ≠ .waiting t) : ticket caller = none := by
  unfold ticket
  cases hst : caller.stage with
  | waiting t => exact absurd hst (h t)
  | admitted | calling | ended => rfl

theorem ticket_of_waiting {k : ℕ} (h : caller.stage = .waiting k) :
    ticket caller = some (k, caller.cancelRequested) := by
  unfold ticket
  rw [h]

theorem of_ticket {x : ℕ × Bool} (h : ticket caller = some x) :
    caller.stage = .waiting x.1 ∧ caller.cancelRequested = x.2 := by
  unfold ticket at h
  cases hst : caller.stage with
  | waiting t =>
    simp only [hst] at h
    cases h
    exact ⟨rfl, rfl⟩
  | admitted | calling | ended =>
    simp only [hst] at h
    cases h

theorem follow_cases (s : SyncManager) (i : ℕ) (caller : SyncCaller) (hc : t.calls[j]? = some c) :
    ∃ stage semaphore metrics, follow { s with traffic := t } i caller j =
      { s.setCaller i { caller with stage := stage } with
      syncLimit := semaphore, traffic := { t with metrics := metrics } } ∧
    ((c.phase.isEnded = true ∧ stage.isEnded = true ∧ semaphore = s.syncLimit.release) ∨
      (c.phase.isEnded = false ∧ stage = .calling j ∧ semaphore = s.syncLimit)) := by
  unfold follow
  simp only [hc, Option.map_some]
  split
  · next result hph =>
    refine ⟨.ended result, _, _, rfl, Or.inl ⟨?_, rfl, rfl⟩⟩
    rw [Option.some.inj hph]
    rfl
  · next hph =>
    refine ⟨.calling j, _, t.metrics, rfl, Or.inr ⟨?_, rfl, rfl⟩⟩
    cases hphase : c.phase with
    | waiting | posting => rfl
    | ended result => exact absurd (congrArg some hphase) (hph result)

theorem Held.follow (h : s.Held) (hat : s.callers[i]? = some caller) (hold : ticket caller = none)
    (ht : t.Sound) (hc : t.calls[j]? = some c)
    (hback : ∀ (k : ℕ) (d : Call), k ≠ j → t.calls[k]? = some d → s.traffic.calls[k]? = some d)
    (hmine : ∀ k, caller.stage = .calling k → k = j)
    (hothers : ∀ (k : ℕ) (d : SyncCaller), s.callers[k]? = some d → d.stage = .calling j → k = i)
    (hasked : c.cancelRequested = true → caller.cancelRequested = true) :
    Held (follow { s with traffic := t } i caller j) ∧
      ∀ (k : ℕ) (d : SyncCaller), (follow { s with traffic := t } i caller j).callers[k]? = some d →
        d.stage = .admitted → k ≠ i ∧ s.callers[k]? = some d := by
  obtain ⟨stage, semaphore, metrics, hfollow, hcase⟩ := follow_cases s i caller hc
  rw [hfollow]
  have hstage : ∀ k, stage = .calling k → k = j ∧ c.phase.isEnded = false := by
    intro k hk
    rcases hcase with ⟨-, hend, -⟩ | ⟨hlive, hcalling, -⟩
    · rw [hk] at hend
      cases hend
    · rw [hcalling] at hk
      exact ⟨(SyncStage.calling.inj hk).symm, hlive⟩
  have hticket : ticket { caller with stage := stage } = none := by
    apply ticket_of_stage
    rintro k rfl
    rcases hcase with ⟨-, hend, -⟩ | ⟨-, hcalling, -⟩
    · cases hend
    · cases hcalling
  refine ⟨⟨⟨⟨ht.balanced.known, ht.balanced.balance⟩, ht.queued, ht.roomy⟩, ?_, ?_, ?_⟩, ?_⟩
  · show semaphore.Serves (FifoSemaphore.clientsOf ticket (s.callers.set i _))
    rw [FifoSemaphore.clientsOf_same hat (hticket.trans hold.symm)]
    rcases hcase with ⟨-, -, rfl⟩ | ⟨-, -, rfl⟩
    · exact h.serves.release
    · exact h.serves
  · intro k d hd hlive
    by_cases he : k = j
    · subst he
      rw [show t.calls[k]? = some d from hd] at hc
      cases hc
      refine ⟨i, _, setCaller_self hat, ?_⟩
      rcases hcase with ⟨hend, -⟩ | ⟨-, hcalling, -⟩
      · rw [hend] at hlive
        cases hlive
      · exact hcalling
    · obtain ⟨l, d', hd', hst⟩ := h.owned k d (hback k d he hd) hlive
      refine ⟨l, d', ?_, hst⟩
      have hne : l ≠ i := by
        rintro rfl
        rw [hat] at hd'
        cases hd'
        exact he (hmine k hst)
      show (s.callers.set i _)[l]? = some d'
      rw [List.getElem?_set_ne (Ne.symm hne), hd']
  · intro k l d c' hd hst hc' hreq
    rcases setCaller_cases hat hd with ⟨rfl, rfl⟩ | ⟨hne, hd⟩
    · obtain ⟨rfl, -⟩ := hstage l hst
      rw [show t.calls[l]? = some c' from hc'] at hc
      cases hc
      exact hasked hreq
    · have hl : l ≠ j := by
        rintro rfl
        exact hne (hothers k d hd hst)
      exact h.heeded k l d c' hd hst (hback l c' hl hc') hreq
  · intro k d hd hst
    rcases setCaller_cases hat hd with ⟨-, rfl⟩ | ⟨hne, hd⟩
    · rcases hcase with ⟨-, hend, -⟩ | ⟨-, hcalling, -⟩
      · rw [show stage = .admitted from hst] at hend
        cases hend
      · rw [show stage = .admitted from hst] at hcalling
        cases hcalling
    · exact ⟨hne, hd⟩

theorem Held.enter (h : s.Held) (hi : s.Inv workers limits) (hat : s.callers[i]? = some caller)
    (hstage : caller.stage = .admitted)
    (hrest : ∀ (k : ℕ) (d : SyncCaller), k ≠ i → s.callers[k]? = some d → d.stage ≠ .admitted)
    (henter : s.enter i caller = some s') : s'.Held ∧ s'.Rested := by
  obtain ⟨t, hstep, rfl⟩ := Option.map_eq_some_iff.mp henter
  obtain ⟨c, hcalls, -, hreq⟩ := (Traffic.step_moves hstep).called
  have hlast : t.calls[s.traffic.calls.length]? = some c := by
    rw [hcalls, List.getElem?_concat_length]
  have hgo := h.follow hat (ticket_of_stage (by rw [hstage]; nofun))
    (Traffic.step_sound h.calls hstep) hlast ?_ ?_ ?_ ?_
  · obtain ⟨hheld, hback⟩ := hgo
    refine ⟨hheld, ?_⟩
    intro k d hd hst
    obtain ⟨hne, hd⟩ := hback k d hd hst
    exact hrest k d hne hd hst
  · intro k d hne hd
    rw [hcalls] at hd
    have hlt : k < s.traffic.calls.length := by
      have := (List.getElem?_eq_some_iff.mp hd).1
      rw [List.length_append, List.length_singleton] at this
      omega
    rwa [List.getElem?_append_left hlt] at hd
  · intro k hk
    rw [hstage] at hk
    cases hk
  · intro k d hd hst
    obtain ⟨c', hc', -⟩ := hi.linked k _ d hd hst
    simp at hc'
  · intro hr
    rw [hreq] at hr
    cases hr

theorem Held.callStep {f : ℕ → TrafficEvent} (h : s.Held) (hi : s.Inv workers limits)
    (hat : s.callers[i]? = some caller) (hstep : s.callStep i caller f = some s')
    (hplace : ∀ j, (f j).place = some j)
    (hcancel : ∀ j, f j = .cancel j → caller.cancelRequested = true)
    (hrest : ∀ (k : ℕ) (d : SyncCaller), k ≠ i → s.callers[k]? = some d → d.stage ≠ .admitted) :
    s'.Held ∧ s'.Rested := by
  unfold SyncManager.callStep at hstep
  split at hstep
  · next j hstage =>
    obtain ⟨t, ht, rfl⟩ := Option.map_eq_some_iff.mp hstep
    have hm := Traffic.step_moves ht
    obtain ⟨c, c', hc⟩ := hm.changes (hplace j)
    have hgo := h.follow hat (ticket_of_stage (by rw [hstage]; nofun))
      (Traffic.step_sound h.calls ht) hc.after ?_ ?_ ?_ ?_
    · obtain ⟨hheld, hback⟩ := hgo
      refine ⟨hheld, ?_⟩
      intro k d hd hst
      obtain ⟨hne, hd⟩ := hback k d hd hst
      exact hrest k d hne hd hst
    · intro k d hne hd
      rwa [hc.other hne] at hd
    · intro k hk
      rw [hstage] at hk
      exact (SyncStage.calling.inj hk).symm
    · intro k d hd hst
      exact hi.once k i j d caller hd hat hst hstage
    · intro hreq
      by_cases he : f j = .cancel j
      · exact hcancel j he
      · obtain ⟨c₀, phase, hc₀, -, hcalls, -⟩ := hm.takes (hplace j) he
        have hafter := hc.after
        rw [hcalls, List.getElem?_set_self (List.getElem?_eq_some_iff.mp hc₀).1] at hafter
        cases hafter
        exact h.heeded i j caller c₀ hat hstage hc₀ hreq
  · cases hstep
  · cases hstep
  · cases hstep

theorem Held.put (h : s.Held) (hat : s.callers[i]? = some caller) (caller' : SyncCaller)
    {semaphore : FifoSemaphore} (hserves : semaphore.Serves
      (Function.update (FifoSemaphore.clientsOf ticket s.callers) i (ticket caller')))
    (hcalling : ∀ j, caller'.stage = .calling j ↔ caller.stage = .calling j)
    (hasked : caller.cancelRequested = true → caller'.cancelRequested = true) :
    Held { s.setCaller i caller' with syncLimit := semaphore } := by
  refine ⟨h.calls, ?_, ?_, ?_⟩
  · show semaphore.Serves (FifoSemaphore.clientsOf ticket (s.callers.set i caller'))
    rw [FifoSemaphore.clientsOf_set hat]
    exact hserves
  · intro k d hd hlive
    obtain ⟨l, d', hd', hst⟩ := h.owned k d hd hlive
    by_cases he : l = i
    · subst he
      rw [hat] at hd'
      cases hd'
      exact ⟨l, caller', setCaller_self hat, (hcalling k).mpr hst⟩
    · refine ⟨l, d', ?_, hst⟩
      show (s.callers.set i caller')[l]? = some d'
      rw [List.getElem?_set_ne (Ne.symm he), hd']
  · intro k l d c' hd hst hc' hreq
    rcases setCaller_cases hat hd with ⟨rfl, rfl⟩ | ⟨-, hd⟩
    · exact hasked (h.heeded k l caller c' hat ((hcalling l).mp hst) hc' hreq)
    · exact h.heeded k l d c' hd hst hc' hreq

theorem Held.append (h : s.Held) (caller : SyncCaller) {semaphore : FifoSemaphore}
    (hserves : semaphore.Serves
      (Function.update (FifoSemaphore.clientsOf ticket s.callers) s.callers.length (ticket caller)))
    (hstage : ∀ j, caller.stage ≠ .calling j) :
    Held { s with syncLimit := semaphore, callers := s.callers ++ [caller] } := by
  refine ⟨h.calls, ?_, ?_, ?_⟩
  · rw [FifoSemaphore.clientsOf_append]
    exact hserves
  · intro k d hd hlive
    obtain ⟨l, d', hd', hst⟩ := h.owned k d hd hlive
    refine ⟨l, d', ?_, hst⟩
    rw [List.getElem?_append_left (List.getElem?_eq_some_iff.mp hd').1, hd']
  · intro k l d c' hd hst
    have hlt : k < s.callers.length := by
      by_contra hge
      rw [List.getElem?_append_right (by omega)] at hd
      obtain rfl := List.mem_singleton.mp (List.mem_of_getElem? hd)
      exact hstage l hst
    rw [List.getElem?_append_left hlt] at hd
    exact h.heeded k l d c' hd hst

structure Nested (workers : List WorkerConfig) (limits : LimitsConfig) (s : SyncManager) : Prop where
  inv : s.Inv workers limits
  held : s.Held
  rested : s.Rested

theorem Rested.put (h : s.Rested) (hat : s.callers[i]? = some caller) {caller' : SyncCaller}
    (hstage : caller'.stage ≠ .admitted) {semaphore : FifoSemaphore} :
    Rested { s.setCaller i caller' with syncLimit := semaphore } := by
  intro k d hd
  rcases setCaller_cases hat hd with ⟨-, rfl⟩ | ⟨-, hd⟩
  · exact hstage
  · exact h k d hd

theorem clients_of_waiting {k : ℕ} (hat : s.callers[i]? = some caller)
    (hstage : caller.stage = .waiting k) :
    FifoSemaphore.clientsOf ticket s.callers i = some (k, caller.cancelRequested) :=
  (FifoSemaphore.clientsOf_eq hat).trans (ticket_of_waiting hstage)

theorem Nested.accept {workerId : String} (h : s.Nested workers limits)
    (haccept : s.accept workerId = some s') : s'.Held ∧ s'.Rested := by
  have hnone : FifoSemaphore.clientsOf ticket s.callers s.callers.length = none := by
    unfold FifoSemaphore.clientsOf
    rw [List.getElem?_eq_none le_rfl, Option.bind_none]
  unfold SyncManager.accept at haccept
  split at haccept
  · next hlocked =>
    cases haccept
    refine ⟨h.held.append _ ?_ nofun, ?_⟩
    · exact h.held.serves.enqueue hlocked fun j x hj => FifoSemaphore.clientsOf_lt hj
    · intro k d hd
      rcases List.mem_append.mp (List.mem_of_getElem? hd) with hd | hd
      · obtain ⟨l, hl⟩ := List.getElem?_of_mem hd
        exact h.rested l d hl
      · rw [List.mem_singleton.mp hd]
        nofun
  · next hlocked =>
    have hfree : s.syncLimit.locked = false := Bool.not_eq_true _ ▸ hlocked
    have hinv := h.inv.append ⟨workerId, .admitted, false⟩ s.syncLimit.take rfl
      (FifoSemaphore.free_take hfree)
    have hheld : Held { s with
        syncLimit := s.syncLimit.take, callers := s.callers ++ [⟨workerId, .admitted, false⟩] } := by
      refine h.held.append _ ?_ nofun
      rw [ticket_of_stage (by nofun), ← hnone, Function.update_eq_self]
      exact h.held.serves.take hfree
    refine hheld.enter hinv (by simp) rfl ?_ haccept
    intro k d hne hd
    have hlt : k < s.callers.length := by
      have := (List.getElem?_eq_some_iff.mp hd).1
      rw [List.length_append, List.length_singleton] at this
      omega
    rw [List.getElem?_append_left hlt] at hd
    exact h.rested k d hd

theorem Nested.goOn (h : s.Nested workers limits) (hat : s.callers[i]? = some caller)
    (hgo : s.goOn i caller = some s') : s'.Held ∧ s'.Rested := by
  unfold SyncManager.goOn at hgo
  split at hgo
  · next k hstage =>
    split at hgo
    · next hgrant =>
      have hinv := h.inv.put hat { caller with stage := .admitted } (s.syncLimit.resume k) rfl
        (by simp [hstage])
        (by simp [hstage, SyncStage.holds, FifoSemaphore.free_resume hgrant.2])
      have hheld : Held { s.setCaller i { caller with stage := .admitted } with
          syncLimit := s.syncLimit.resume k } := by
        refine h.held.put hat _ ?_ (by simp [hstage]) id
        rw [ticket_of_stage fun _ h => by cases h]
        exact h.held.serves.resume (clients_of_waiting hat hstage)
      refine hheld.enter hinv (setCaller_self hat) rfl ?_ hgo
      intro l d hne hd
      exact h.rested l d ((List.getElem?_set_ne (Ne.symm hne)).symm.trans hd)
    · cases hgo
  · cases hgo
  · cases hgo
  · cases hgo

theorem Nested.cancel (h : s.Nested workers limits) (hat : s.callers[i]? = some caller)
    (hcancel : s.cancel i caller = some s') : s'.Held ∧ s'.Rested := by
  unfold SyncManager.cancel at hcancel
  simp only at hcancel
  split at hcancel
  · next k hstage =>
    cases hcancel
    refine ⟨h.held.put hat _ ?_ (fun _ => Iff.rfl) (fun _ => rfl), h.rested.put hat ?_⟩
    · rw [ticket_of_waiting (k := k) (by exact hstage)]
      exact h.held.serves.cancelFuture (clients_of_waiting hat hstage)
    · rw [hstage]
      nofun
  · next k hstage =>
    have hplain : ticket { caller with cancelRequested := true } = ticket caller := by
      rw [ticket_of_stage (by rw [hstage]; nofun), ticket_of_stage (by rw [hstage]; nofun)]
    have hheld : Held (s.setCaller i { caller with cancelRequested := true }) := by
      refine h.held.put hat _ ?_ (fun _ => Iff.rfl) (fun _ => rfl)
      have hself : FifoSemaphore.clientsOf ticket s.callers i = ticket caller :=
        FifoSemaphore.clientsOf_eq hat
      rw [hplain, ← hself, Function.update_eq_self]
      exact h.held.serves
    have hinv := h.inv.put hat { caller with cancelRequested := true } s.syncLimit rfl
      (fun _ => Iff.rfl) rfl
    refine hheld.callStep hinv (setCaller_self hat) hcancel (fun _ => rfl) (fun _ _ => rfl) ?_
    intro l d hne hd
    exact h.rested l d ((List.getElem?_set_ne (Ne.symm hne)).symm.trans hd)
  · cases hcancel
  · cases hcancel

theorem Nested.throwCancelled (h : s.Nested workers limits) (hat : s.callers[i]? = some caller)
    (hthrow : s.throwCancelled i caller = some s') : s'.Held ∧ s'.Rested := by
  unfold SyncManager.throwCancelled at hthrow
  split at hthrow
  · next k hstage =>
    cases hthrow
    refine ⟨h.held.put hat _ ?_ (by simp [hstage]) id, h.rested.put hat (by nofun)⟩
    rw [ticket_of_stage (by nofun)]
    exact h.held.serves.abandon (clients_of_waiting hat hstage)
  · exact h.held.callStep h.inv hat hthrow (fun _ => rfl) nofun fun l d _ hd => h.rested l d hd
  · cases hthrow
  · cases hthrow

theorem Nested.step (h : s.Nested workers limits) (hstep : s.step host e = some s') :
    s'.Nested workers limits := by
  suffices hs : s'.Held ∧ s'.Rested from ⟨h.inv.moves (step_moves hstep), hs.1, hs.2⟩
  cases e with
  | tick seconds =>
    obtain ⟨t, ht, rfl⟩ := Option.map_eq_some_iff.mp hstep
    have hcalls := Traffic.step_sound h.held.calls ht
    cases Traffic.step_moves ht
    exact ⟨⟨hcalls, h.held.serves, h.held.owned, h.held.heeded⟩, h.rested⟩
  | call workerId prompt =>
    simp only [SyncManager.step] at hstep
    split at hstep
    · exact h.accept hstep
    · cases hstep
      exact ⟨h.held, h.rested⟩
  | goOn i =>
    obtain ⟨caller, hat, hgo⟩ := Option.bind_eq_some_iff.mp hstep
    exact h.goOn hat hgo
  | proceed i =>
    obtain ⟨caller, hat, hcall⟩ := Option.bind_eq_some_iff.mp hstep
    exact h.held.callStep h.inv hat hcall (fun _ => rfl) (fun _ h => by cases h)
      fun l d _ hd => h.rested l d hd
  | respond i response =>
    obtain ⟨caller, hat, hcall⟩ := Option.bind_eq_some_iff.mp hstep
    exact h.held.callStep h.inv hat hcall (fun _ => rfl) (fun _ h => by cases h)
      fun l d _ hd => h.rested l d hd
  | cancel i =>
    obtain ⟨caller, hat, hcancel⟩ := Option.bind_eq_some_iff.mp hstep
    exact h.cancel hat hcancel
  | throwCancelled i =>
    obtain ⟨caller, hat, hthrow⟩ := Option.bind_eq_some_iff.mp hstep
    split at hthrow
    · exact h.throwCancelled hat hthrow
    · cases hthrow

def helps : SyncEvent → Bool
  | .goOn _ | .proceed _ | .respond .. | .throwCancelled _ => true
  | .tick _ | .call .. | .cancel _ => false

def idles : SyncEvent → Bool
  | .tick _ | .cancel _ => true
  | .call .. | .goOn _ | .proceed _ | .respond .. | .throwCancelled _ => false

theorem Nested.goes_of_call (h : s.Nested workers limits) (hc : s.traffic.calls[j]? = some c)
    (hlive : c.phase.isEnded = false) : ∃ e s', helps e = true ∧ s.step host e = some s' := by
  obtain ⟨k, d, hd, -, -, hdlive, hready⟩ := h.held.calls.goes hc hlive
  obtain ⟨l, caller, hat, hstage⟩ := h.held.owned k d hd hdlive
  cases hready with
  | thrown hreq hstep =>
    obtain ⟨t, ht⟩ := hstep
    have hasked := h.held.heeded l k caller d hat hstage hd hreq
    refine ⟨.throwCancelled l, SyncManager.follow { s with traffic := t } l caller k, rfl, ?_⟩
    simp only [SyncManager.step, hat, Option.bind_some, hasked, if_true,
      SyncManager.throwCancelled, hstage, SyncManager.callStep, ht, Option.map_some]
  | granted hreq hstep =>
    obtain ⟨t, ht⟩ := hstep
    refine ⟨.proceed l, SyncManager.follow { s with traffic := t } l caller k, rfl, ?_⟩
    simp only [SyncManager.step, hat, Option.bind_some, SyncManager.callStep, hstage, ht,
      Option.map_some]
  | posting hreq hstep =>
    obtain ⟨t, ht⟩ := hstep (.ok .null)
    refine ⟨.respond l (.ok .null), SyncManager.follow { s with traffic := t } l caller k, rfl, ?_⟩
    simp only [SyncManager.step, hat, Option.bind_some, SyncManager.callStep, hstage, ht,
      Option.map_some]

theorem Inv.exists_enter (h : s.Inv workers limits) (i : ℕ) (caller : SyncCaller) :
    ∃ s', s.enter i caller = some s' := by
  have hlen : 0 < s.traffic.registries.length := by
    have := congrArg List.length h.workers
    simp only [List.length_map, List.length_singleton] at this
    omega
  have hstep : s.traffic.step (.call 0 caller.workerId) =
      some (s.traffic.call 0 s.traffic.registries[0] caller.workerId) :=
    Option.map_eq_some_iff.mpr ⟨_, List.getElem?_eq_getElem hlen, rfl⟩
  exact ⟨_, Option.map_eq_some_iff.mpr ⟨_, hstep, rfl⟩⟩

theorem Nested.goes_of_able {k : ℕ} (h : s.Nested workers limits) (hat : s.callers[i]? = some caller)
    (hstage : caller.stage = .waiting k)
    (hable : caller.cancelRequested = true ∨ s.syncLimit.future k = some .granted) :
    ∃ e s', helps e = true ∧ s.step host e = some s' := by
  cases hreq : caller.cancelRequested with
  | true =>
    refine ⟨.throwCancelled i, ?_⟩
    simp only [SyncManager.step, hat, Option.bind_some, hreq, if_true, SyncManager.throwCancelled,
      hstage]
    exact ⟨_, rfl, rfl⟩
  | false =>
    have hgrant := hable.resolve_left (by rw [hreq]; exact Bool.false_ne_true)
    obtain ⟨s', hs'⟩ := Inv.exists_enter (s := { s.setCaller i { caller with stage := .admitted } with
      syncLimit := s.syncLimit.resume k }) (h.inv.put hat { caller with stage := .admitted }
        (s.syncLimit.resume k) rfl (by simp [hstage])
        (by simp [hstage, SyncStage.holds, FifoSemaphore.free_resume hgrant])) i
      { caller with stage := .admitted }
    refine ⟨.goOn i, s', rfl, ?_⟩
    simp only [SyncManager.step, hat, Option.bind_some, SyncManager.goOn, hstage]
    rw [if_pos ⟨hreq, hgrant⟩]
    exact hs'

theorem Nested.goes (h : s.Nested workers limits) (hat : s.callers[i]? = some caller)
    (hlive : caller.stage.isEnded = false) : ∃ e s', helps e = true ∧ s.step host e = some s' := by
  -- Whoever holds a slot of the outer semaphore is in a call, and calls go on.
  cases hstage : caller.stage with
  | ended =>
    rw [hstage] at hlive
    cases hlive
  | admitted => exact absurd hstage (h.rested i caller hat)
  | calling j =>
    obtain ⟨c, hc, -, hcl⟩ := h.inv.linked i j caller hat hstage
    exact h.goes_of_call hc hcl
  | waiting k =>
    rcases h.held.serves.able_or_full (clients_of_waiting hat hstage) with
      ⟨l, k', asked, hl, hable⟩ | hfull
    · obtain ⟨d, hd, hticket⟩ := Option.bind_eq_some_iff.mp hl
      obtain ⟨hst, rfl⟩ := of_ticket hticket
      exact h.goes_of_able hd hst hable
    · -- Who holds a slot of `_sync_limit` is in a call.
      have hslots := h.inv.slots
      have hpos := limits.syncActiveTasks_pos
      have hholds : 0 < s.callers.countP fun c => c.stage.holds := by omega
      obtain ⟨d, hd, hhold⟩ := List.countP_pos_iff.mp hholds
      obtain ⟨l, hl⟩ := List.getElem?_of_mem hd
      cases hst : d.stage with
      | admitted => exact absurd hst (h.rested l d hl)
      | calling j =>
        obtain ⟨c, hc, -, hcl⟩ := h.inv.linked l j d hl hst
        exact h.goes_of_call hc hcl
      | waiting | ended =>
        rw [hst] at hhold
        cases hhold

/-- What a caller still has to do before it is in its call, and the steps of that call. -/
def weight : SyncStage → ℕ
  | .waiting _ | .admitted => 3
  | .calling _ | .ended _ => 0

def waits (s : SyncManager) : ℕ := (s.callers.map fun c => weight c.stage).sum

def work (s : SyncManager) : ℕ := s.waits + s.traffic.work

theorem waits_setCaller (hat : s.callers[i]? = some caller) (caller' : SyncCaller) :
    (s.setCaller i caller').waits + weight caller.stage = s.waits + weight caller'.stage :=
  Runs.sum_set_add (fun c : SyncCaller => weight c.stage) hat caller'

theorem follow_work (hat : s.callers[i]? = some caller) (hc : t.calls[j]? = some c) :
    (follow { s with traffic := t } i caller j).work + weight caller.stage = s.waits + t.work := by
  obtain ⟨stage, semaphore, metrics, hfollow, hcase⟩ := follow_cases s i caller hc
  have hzero : weight stage = 0 := by
    rcases hcase with ⟨-, hend, -⟩ | ⟨-, rfl, -⟩
    · cases stage with
      | ended => rfl
      | waiting | admitted | calling => cases hend
    · rfl
  have hset := waits_setCaller hat { caller with stage := stage }
  rw [hfollow]
  show (s.setCaller i { caller with stage := stage }).waits + t.work + _ = _
  dsimp only at hset
  omega

theorem enter_work (hat : s.callers[i]? = some caller) (hstage : caller.stage = .admitted)
    (henter : s.enter i caller = some s') : s'.work < s.work := by
  obtain ⟨t, hstep, rfl⟩ := Option.map_eq_some_iff.mp henter
  obtain ⟨reg, hreg, rfl⟩ := Option.map_eq_some_iff.mp hstep
  obtain ⟨phase, hcalls, hsteps, -⟩ :=
    (Traffic.call_begins s.traffic 0 reg caller.workerId).phase
  have hlast : (s.traffic.call 0 reg caller.workerId).calls[s.traffic.calls.length]? =
      some ⟨0, caller.workerId, s.traffic.now, phase, false⟩ := by
    rw [hcalls, List.getElem?_concat_length]
  have hfollow := follow_work hat hlast
  have hwork : (s.traffic.call 0 reg caller.workerId).work = s.traffic.work + Traffic.steps phase := by
    unfold Traffic.work
    rw [hcalls]
    simp
  have hthree : weight caller.stage = 3 := by
    rw [hstage]
    rfl
  unfold work at hfollow ⊢
  omega

theorem callStep_work {f : ℕ → TrafficEvent} (hat : s.callers[i]? = some caller)
    (hstep : s.callStep i caller f = some s') (hplace : ∀ j, (f j).place = some j) :
    ∃ j t, s.traffic.step (f j) = some t ∧ s'.work = s.waits + t.work := by
  unfold callStep at hstep
  split at hstep
  · next j hstage =>
    obtain ⟨t, ht, rfl⟩ := Option.map_eq_some_iff.mp hstep
    obtain ⟨c, c', hc⟩ := (Traffic.step_moves ht).changes (hplace j)
    have hfollow := follow_work hat hc.after
    rw [hstage] at hfollow
    exact ⟨j, t, ht, hfollow⟩
  · cases hstep
  · cases hstep
  · cases hstep

theorem callStep_work_lt {f : ℕ → TrafficEvent} (hat : s.callers[i]? = some caller)
    (hstep : s.callStep i caller f = some s') (hplace : ∀ j, (f j).place = some j)
    (hhelps : ∀ j, Traffic.helps (f j) = true) : s'.work < s.work := by
  obtain ⟨j, t, ht, hwork⟩ := callStep_work hat hstep hplace
  have := (Traffic.step_moves ht).work_lt (hhelps j)
  unfold work at hwork ⊢
  omega

theorem step_work_lt (hstep : s.step host e = some s') (hhelps : helps e = true) :
    s'.work < s.work := by
  cases e with
  | tick | call | cancel => cases hhelps
  | goOn i =>
    obtain ⟨caller, hat, hgo⟩ := Option.bind_eq_some_iff.mp hstep
    unfold goOn at hgo
    split at hgo
    · next k hstage =>
      split at hgo
      · have hlt := enter_work (setCaller_self hat) rfl hgo
        have hset := waits_setCaller hat { caller with stage := .admitted }
        rw [hstage] at hset
        have hsame : (s.setCaller i { caller with stage := .admitted }).waits = s.waits :=
          Nat.add_right_cancel hset
        unfold work at hlt ⊢
        rw [← hsame]
        exact hlt
      · cases hgo
    · cases hgo
    · cases hgo
    · cases hgo
  | proceed i =>
    obtain ⟨caller, hat, hcall⟩ := Option.bind_eq_some_iff.mp hstep
    exact callStep_work_lt hat hcall (fun _ => rfl) fun _ => rfl
  | respond i response =>
    obtain ⟨caller, hat, hcall⟩ := Option.bind_eq_some_iff.mp hstep
    exact callStep_work_lt hat hcall (fun _ => rfl) fun _ => rfl
  | throwCancelled i =>
    obtain ⟨caller, hat, hthrow⟩ := Option.bind_eq_some_iff.mp hstep
    split at hthrow
    · unfold throwCancelled at hthrow
      split at hthrow
      · next k hstage =>
        cases hthrow
        have hset := waits_setCaller hat { caller with stage := .ended none }
        rw [hstage] at hset
        dsimp only at hset
        have hthree : weight (.waiting k) = 3 := rfl
        have hzero : weight (.ended none) = 0 := rfl
        show (s.setCaller i { caller with stage := .ended none }).waits + s.traffic.work < _
        unfold work
        omega
      · exact callStep_work_lt hat hthrow (fun _ => rfl) fun _ => rfl
      · cases hthrow
      · cases hthrow
    · cases hthrow

theorem step_work_le (hstep : s.step host e = some s') (hidles : idles e = true) :
    s'.work ≤ s.work := by
  cases e with
  | call | goOn | proceed | respond | throwCancelled => cases hidles
  | tick seconds =>
    obtain ⟨t, ht, rfl⟩ := Option.map_eq_some_iff.mp hstep
    cases Traffic.step_moves ht
    exact le_rfl
  | cancel i =>
    obtain ⟨caller, hat, hcancel⟩ := Option.bind_eq_some_iff.mp hstep
    have hset := waits_setCaller hat { caller with cancelRequested := true }
    have hsame : (s.setCaller i { caller with cancelRequested := true }).waits = s.waits :=
      Nat.add_right_cancel hset
    unfold cancel at hcancel
    simp only at hcancel
    split at hcancel
    · cases hcancel
      exact (Nat.add_right_cancel_iff.mpr hsame).le
    · obtain ⟨j, t, ht, hwork⟩ := callStep_work (setCaller_self hat) hcancel fun _ => rfl
      have heq := (Traffic.step_moves ht).work_eq rfl
      rw [hwork, hsame, heq]
      exact le_rfl
    · cases hcancel
    · cases hcancel

variable {breaker : CircuitBreakerConfig}

theorem draining : (machine host workers breaker limits).Draining (Nested workers limits) helps idles
    work where
  keeps _ _ _ hs _ hstep := hs.step hstep
  lowers _ _ _ _ hhelps hstep := step_work_lt hstep hhelps
  bears _ _ _ _ hidles hstep := step_work_le hstep hidles
  goes s hs hne := by
    by_cases hcalls : s.traffic.work = 0
    · have hwaits : s.waits ≠ 0 := by
        intro hzero
        apply hne
        unfold work
        rw [hzero, hcalls]
      obtain ⟨i, caller, hat, hweight⟩ :=
        Runs.exists_of_sum_ne_zero (fun c : SyncCaller => weight c.stage) hwaits
      apply hs.goes hat
      cases hst : caller.stage with
      | waiting | admitted | calling => rfl
      | ended =>
        rw [hst] at hweight
        exact absurd rfl hweight
    · obtain ⟨j, c, hc, hsteps⟩ :=
        Runs.exists_of_sum_ne_zero (fun c : Call => Traffic.steps c.phase) hcalls
      apply hs.goes_of_call hc
      rw [Bool.eq_false_iff]
      exact fun hend => hsteps (Traffic.steps_eq_zero.mpr hend)

theorem nested_start : (machine host workers breaker limits).start.Nested workers limits := by
  refine ⟨inv_start, ⟨Traffic.sound_start, .new _, ?_, ?_⟩, ?_⟩
  · intro j c hc
    cases hc
  · intro i j d c hd
    cases hd
  · intro i d hd
    cases hd

theorem Nested.done (h : s.Nested workers limits) (hzero : s.work = 0) :
    ∀ c ∈ s.callers, c.stage.isEnded = true := by
  obtain ⟨hwaits, hcalls⟩ := Nat.add_eq_zero_iff.mp hzero
  intro caller hmem
  obtain ⟨i, hat⟩ := List.getElem?_of_mem hmem
  have hweight := (Runs.sum_eq_zero_iff fun c : SyncCaller => weight c.stage).mp hwaits caller hmem
  cases hst : caller.stage with
  | ended => rfl
  | waiting | admitted =>
    rw [hst] at hweight
    cases hweight
  | calling j =>
    obtain ⟨c, hc, -, hlive⟩ := h.inv.linked i j caller hat hst
    have hsteps := (Runs.sum_eq_zero_iff fun c : Call => Traffic.steps c.phase).mp hcalls c
      (List.mem_of_getElem? hc)
    rw [Traffic.steps_eq_zero.mp hsteps] at hlive
    cases hlive

/-- Synchronous calls do not block one another at the two semaphores: while one is not
over one of them can go on, and if no more come they are all over after as many steps as
they have left. -/
theorem sync_calls_go_on (h : (machine host workers breaker limits).Reachable Runs.anyStep s) :
    (∀ (i : ℕ) (caller : SyncCaller), s.callers[i]? = some caller → caller.stage.isEnded = false →
      ∃ e s', helps e = true ∧ s.step host e = some s') ∧
    (∀ (i k : ℕ) (c d : SyncCaller) t t', s.callers[i]? = some c → s.callers[k]? = some d →
      c.stage = .waiting t → s.syncLimit.future t = some .pending →
        d.stage = .waiting t' → s.syncLimit.future t' = some .granted → k < i) ∧
    (∀ events s', (∀ e ∈ events, (helps e || idles e) = true) →
      (machine host workers breaker limits).run Runs.anyStep s events = some s' →
        events.countP helps + s'.work ≤ s.work) ∧
    (s.work = 0 → (∀ c ∈ s.callers, c.stage.isEnded = true) ∧
      s.syncLimit.free = limits.syncActiveTasks) := by
  have hs : s.Nested workers limits :=
    h.invariant nested_start fun _ _ _ _ hn hstep => Nested.step hn hstep
  refine ⟨fun i caller hat hlive => hs.goes hat hlive, ?_, ?_, ?_⟩
  · intro i k c d t t' hc hd hst hpending hst' hgranted
    exact hs.held.serves.inTurn (clients_of_waiting hc hst) (clients_of_waiting hd hst') hpending
      hgranted
  · intro events s' hevents hrun
    exact (draining.run_le hs hevents hrun).2
  · intro hzero
    have hdone := hs.done hzero
    refine ⟨hdone, ?_⟩
    have hnone : s.callers.countP (fun c => c.stage.holds) = 0 := by
      rw [List.countP_eq_zero]
      intro c hc hholds
      have hend := hdone c hc
      cases hst : c.stage with
      | ended =>
        rw [hst] at hholds
        cases hholds
      | waiting | admitted | calling =>
        rw [hst] at hend
        cases hend
    have hslots := hs.inv.slots
    omega

end SyncManager

namespace Sample

def nestedMachine : Runs.Machine SyncManager SyncEvent :=
  SyncManager.machine host [syncWorker "u" 1 oneSlot, syncWorker "v" 1 oneSlot] breaker
    (limitSync (limits none unlimited) 2 twoSlots)

end Sample

namespace SyncManager

/-- One caller posts, one waits for the slot of the same worker, and one for theirs. -/
theorem sync_calls_go_on_nested : ∃ s : SyncManager, s.work = 6 ∧
    (∃ e s', helps e = true ∧ s.step Sample.host e = some s') ∧
    ∀ events s', (∀ e ∈ events, (helps e || idles e) = true) →
      Sample.nestedMachine.run Runs.anyStep s events = some s' → events.countP helps ≤ 6 := by
  obtain ⟨s, hs, hp⟩ := Runs.Machine.exists_reachable_of_run Sample.nestedMachine Runs.anyStep
    [.call "u" Sample.prompt, .call "u" Sample.prompt, .call "v" Sample.prompt]
    (fun s => decide (s.work = 6) && s.callers[2]?.any fun c => !c.stage.isEnded) (by decide +kernel)
  rw [Bool.and_eq_true, decide_eq_true_iff, Option.any_eq_true] at hp
  obtain ⟨hwork, c, hc, hlive⟩ := hp
  rw [Bool.not_eq_true'] at hlive
  obtain ⟨hgo, -, hrun, -⟩ := sync_calls_go_on hs
  refine ⟨s, hwork, hgo 2 c hc hlive, ?_⟩
  intro events s' hevents hsteps
  have := hrun events s' hevents hsteps
  omega

end SyncManager

end WorkerBridge
