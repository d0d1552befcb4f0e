import WorkerBridge.Cancellation
import WorkerBridge.Lifetime
import WorkerBridge.Progress

namespace WorkerBridge

open TaskState

def Phase.turns : Phase → ℕ
  | created => 6
  | sleeping _ => 5
  | calling => 2
  | finished => 1
  | reaped => 0

namespace Process

variable {host : Host} {p p' : Process} {a : Action} {i : ℕ}

theorem Moves.handle_calling (h : p.Moves a p') (hne : ∀ i attemptId now, a ≠ .resume i attemptId now)
    {j : ℕ} {k' : Handle} (hk : p'.mgr.handles[j]? = some k') :
    (∃ k, p.mgr.handles[j]? = some k ∧ (k'.phase = .calling → k.phase = .calling) ∧
      (k.cancelRequested = true → k'.cancelRequested = true)) ∨
      (p.mgr.handles[j]? = none ∧ k'.phase = .created) := by
  have hset : ∀ {i : ℕ} {l : Handle} {phase : Phase}, p.mgr.handles[i]? = some l →
      p'.mgr.handles = (p.mgr.setPhase i phase).handles → phase ≠ .calling →
        ∃ k, p.mgr.handles[j]? = some k ∧ (k'.phase = .calling → k.phase = .calling) ∧
          (k.cancelRequested = true → k'.cancelRequested = true) := by
    intro i l phase hat hhandles hphase
    rw [hhandles] at hk
    rcases Coherent.setPhase_cases hat hk with ⟨rfl, rfl⟩ | ⟨-, hk⟩
    · exact ⟨l, hat, fun he => absurd he hphase, id⟩
    · exact ⟨k', hk, id, id⟩
  have hsame : p'.mgr.handles = p.mgr.handles →
      ∃ k, p.mgr.handles[j]? = some k ∧ (k'.phase = .calling → k.phase = .calling) ∧
        (k.cancelRequested = true → k'.cancelRequested = true) := by
    intro he
    exact ⟨k', he ▸ hk, id, id⟩
  cases h with
  | idle | replay | stopped | reload => exact Or.inl (hsame rfl)
  | accept =>
    rcases Coherent.track_at.mp hk with hk | ⟨rfl, rfl⟩
    · exact Or.inl ⟨k', hk, id, id⟩
    · exact Or.inr ⟨List.getElem?_eq_none le_rfl, rfl⟩
  | @cancel taskId =>
    obtain ⟨l, hl, -, hph, hreq, -⟩ :=
      Coherent.cancelled_at (Coherent.cancelTracked_at p.mgr taskId) hk
    exact Or.inl ⟨l, hl, fun he => hph ▸ he, hreq⟩
  | sleep => exact absurd rfl (hne _ _ _)
  | attempt => exact absurd rfl (hne _ _ _)
  | quit hat | settle hat | abandon hat | callback hat => exact Or.inl (hset hat rfl nofun)
  | stop =>
    by_cases hempty : p.mgr.background.isEmpty = true
    · exact Or.inl (hsame (by unfold Process.stop; rw [if_pos hempty]))
    · have hstop : p.stop = { p with mgr := { p.mgr.cancelBackground with
          gathering := some (p.mgr.background.map Prod.snd) } } := if_neg hempty
      rw [hstop] at hk
      obtain ⟨l, hl, -, hph, hreq, -⟩ :=
        Coherent.cancelled_at (Coherent.cancelBackground_at p.mgr) hk
      exact Or.inl ⟨l, hl, fun he => hph ▸ he, hreq⟩

end Process

def Turn.stops : Turn → Bool
  | manager a => a.stops
  | reload .. | resume .. | proceed _ | respond .. | goOn _ | abort .. | tick _ | callSync _ |
    cancelSync _ => false

namespace Running

variable {host : Host} {d d' : Running} {turn : Turn}

/-- What each turn does, with the coroutines and the calls it is about. -/
inductive Turns (host : Host) (d : Running) : Turn → Running → Prop
  | manager {a : Action} {p : Process} (hnone : d.returning = none)
      (ha : a.ofManager d.process = true) (hact : d.process.act host a = some p) :
      Turns host d (.manager a) (Running.relay { d with process := p })
  | reload {workers : List WorkerConfig} {breaker : CircuitBreakerConfig}
      {recovery : RecoveryConfig} {limits : LimitsConfig} (hnone : d.returning = none) :
      Turns host d (.reload workers breaker recovery limits)
        { d with
          process := d.process.reload workers recovery limits
          traffic := { d.traffic with registries := d.traffic.registries ++ [.new workers breaker] } }
  | resumed {i : ℕ} {attemptId now : String} {p : Process} (hnone : d.returning = none)
      (hp : d.process.resume host i attemptId now = some p) (hquiet : p.calling i = false) :
      Turns host d (.resume i attemptId now) { d with process := p }
  | sent {i : ℕ} {attemptId now : String} {p : Process} {d' : Running} (hnone : d.returning = none)
      (hp : d.process.resume host i attemptId now = some p) (hcalling : p.calling i = true)
      (hsend : Running.send { d with process := p } i = some d') :
      Turns host d (.resume i attemptId now) d'
  | proceeded {j : ℕ} {t : Traffic} (hnone : d.returning = none)
      (hstep : d.traffic.step (.resume j) = some t) :
      Turns host d (.proceed j) { d with traffic := t, posted := d.note true (d.taskOf j) }
  | responded {j : ℕ} {response : Except PyExc Json} {t : Traffic} (hnone : d.returning = none)
      (hstep : d.traffic.step (.respond j response) = some t) :
      Turns host d (.respond j response) { d with
        traffic := t
        returning := (d.owner j).bind fun i =>
          ((t.calls[j]?.map Call.phase).bind CallPhase.result).map fun result => (i, result) }
  | aborted {i j : ℕ} {now : String} {t : Traffic} {p : Process} (hnone : d.returning = none)
      (hstep : d.traffic.step (.throwCancelled j) = some t) (howner : d.owner j = some i)
      (hp : d.process.throwCancelled i now = some p) :
      Turns host d (.abort j now) { d with process := p, traffic := t }
  | dropped {j : ℕ} {now : String} {t : Traffic} (hnone : d.returning = none)
      (hstep : d.traffic.step (.throwCancelled j) = some t) (howner : d.owner j = none) :
      Turns host d (.abort j now) { d with traffic := t }
  | ticked {seconds : ℚ} (hnone : d.returning = none) (hs : 0 ≤ seconds) :
      Turns host d (.tick seconds)
        { d with traffic := { d.traffic with now := d.traffic.now + seconds } }
  | called {workerId : String} {t : Traffic} (hnone : d.returning = none)
      (hstep : d.traffic.step (.call d.current workerId) = some t) :
      Turns host d (.callSync workerId) { d with traffic := t, owners := d.owners ++ [none] }
  | asked {j : ℕ} {t : Traffic} (hnone : d.returning = none) (howner : d.owner j = none)
      (hstep : d.traffic.step (.cancel j) = some t) :
      Turns host d (.cancelSync j) { d with traffic := t }
  | returned {i : ℕ} {result : Except PyExc Json} {now : String} {d' : Running}
      (hr : d.returning = some (i, result)) (h : d.goOn i result now = some d') :
      Turns host d (.goOn now) d'

theorem advance_turns (h : d.advance host turn = some d') : d.Turns host turn d' := by
  unfold advance at h
  cases hnone : d.returning with
  | none =>
    rw [hnone] at h
    cases turn with
    | manager a =>
      simp only [between] at h
      split at h
      · next ha =>
        obtain ⟨p, hact, rfl⟩ := Option.map_eq_some_iff.mp h
        exact .manager hnone ha hact
      · cases h
    | reload workers breaker recovery limits =>
      cases h
      exact .reload hnone
    | resume i attemptId now =>
      obtain ⟨p, hp, hrest⟩ := Option.bind_eq_some_iff.mp h
      split at hrest
      · next hcalling => exact .sent hnone hp hcalling hrest
      · next hquiet =>
        cases hrest
        exact .resumed hnone hp (Bool.not_eq_true _ ▸ hquiet)
    | proceed j =>
      obtain ⟨t, hstep, rfl⟩ := Option.map_eq_some_iff.mp h
      exact .proceeded hnone hstep
    | respond j response =>
      obtain ⟨t, hstep, rfl⟩ := Option.map_eq_some_iff.mp h
      exact .responded hnone hstep
    | goOn => cases h
    | abort j now =>
      obtain ⟨t, hstep, hrest⟩ := Option.bind_eq_some_iff.mp h
      split at hrest
      · next i howner =>
        obtain ⟨p, hp, rfl⟩ := Option.map_eq_some_iff.mp hrest
        exact .aborted hnone hstep howner hp
      · next howner =>
        cases hrest
        exact .dropped hnone hstep howner
    | tick seconds =>
      obtain ⟨t, hstep, rfl⟩ := Option.map_eq_some_iff.mp h
      cases Traffic.step_moves hstep with
      | tick hs => exact .ticked hnone hs
    | callSync workerId =>
      obtain ⟨t, hstep, rfl⟩ := Option.map_eq_some_iff.mp h
      exact .called hnone hstep
    | cancelSync j =>
      simp only [between] at h
      split at h
      · next howner =>
        obtain ⟨t, hstep, rfl⟩ := Option.map_eq_some_iff.mp h
        exact .asked hnone howner hstep
      · cases h
  | some pair =>
    obtain ⟨i, result⟩ := pair
    rw [hnone] at h
    cases turn with
    | goOn now => exact .returned hnone h
    | manager | reload | resume | proceed | respond | abort | tick | callSync | cancelSync => cases h

/-- Calls were cancelled with their coroutines, and nothing else happened. -/
structure Told (d : Running) (t t' : Traffic) : Prop where
  sound : t.Sound → t'.Sound
  work : t'.work = t.work
  registries : t'.registries.length = t.registries.length
  length : t'.calls.length = t.calls.length
  call : ∀ (j : ℕ) (c' : Call), t'.calls[j]? = some c' → ∃ c, t.calls[j]? = some c ∧
    c'.phase = c.phase ∧ (c'.cancelRequested = true →
      c.cancelRequested = true ∨ ∃ i, d.owner j = some i ∧ d.process.asked i = true)

namespace Told

variable {t t' t'' : Traffic}

theorem refl (d : Running) (t : Traffic) : d.Told t t :=
  ⟨id, rfl, rfl, rfl, fun _ c hc => ⟨c, hc, rfl, Or.inl⟩⟩

theorem trans (h : d.Told t t') (h' : d.Told t' t'') : d.Told t t'' := by
  refine ⟨h'.sound ∘ h.sound, h'.work.trans h.work, h'.registries.trans h.registries,
    h'.length.trans h.length, ?_⟩
  intro j c'' hc''
  obtain ⟨c', hc', hph', hasked'⟩ := h'.call j c'' hc''
  obtain ⟨c, hc, hph, hasked⟩ := h.call j c' hc'
  exact ⟨c, hc, hph'.trans hph, fun hr => (hasked' hr).elim hasked Or.inr⟩

theorem back (h : d.Told t t') {j : ℕ} {c : Call} (hc : t.calls[j]? = some c) :
    ∃ c', t'.calls[j]? = some c' ∧ c'.phase = c.phase := by
  have hlt := (List.getElem?_eq_some_iff.mp hc).1
  have hc' := List.getElem?_eq_getElem (h.length.symm ▸ hlt)
  obtain ⟨c₀, hc₀, hph, -⟩ := h.call j _ hc'
  rw [hc] at hc₀
  cases hc₀
  exact ⟨_, hc', hph⟩

end Told

theorem registries_length {s s' : Traffic} {j : ℕ} (hstep : s.step (.cancel j) = some s') :
    s'.registries.length = s.registries.length := by
  rcases (Traffic.step_moves hstep).workers with hsame | ⟨_, _, he, -⟩
  · simpa using congrArg List.length hsame
  · cases he

theorem tell_told (d : Running) (t : Traffic) (j : ℕ) : d.Told t (d.tell t j) := by
  unfold tell
  split
  · next i call howner hcall =>
    split
    · next hask =>
      rw [Bool.and_eq_true] at hask
      cases hstep : t.step (.cancel j) with
      | none => exact .refl d t
      | some t' =>
        have hm := Traffic.step_moves hstep
        refine ⟨fun hs => Traffic.step_sound hs hstep, hm.work_eq rfl, registries_length hstep, ?_, ?_⟩
        · exact (hm.later nofun).length
        · intro k c' hc'
          rw [Option.getD_some] at hc'
          cases hm with
          | @cancel _ c reg hc =>
            rw [(Traffic.cancel_frame t j c reg).1] at hc'
            by_cases he : k = j
            · subst he
              rw [List.getElem?_set_self (List.getElem?_eq_some_iff.mp hc).1] at hc'
              cases hc'
              exact ⟨c, hc, rfl, fun _ => Or.inr ⟨i, howner, hask.1⟩⟩
            · rw [List.getElem?_set_ne (Ne.symm he)] at hc'
              exact ⟨c', hc', rfl, Or.inl⟩
    · exact .refl d t
  · exact .refl d t

theorem relay_told (d : Running) : d.Told d.traffic d.relay.traffic := by
  have hall : ∀ (l : List ℕ) (t : Traffic), d.Told t (l.foldl d.tell t) := by
    intro l
    induction l with
    | nil => exact fun t => .refl d t
    | cons j l ih => exact fun t => (d.tell_told t j).trans (ih _)
  exact hall _ _

/-- A coroutine in `workers.call` has a call that is not over, or is about to go on, and
only its own cancellation cancels that call. -/
structure Served (d : Running) : Prop where
  heeded : ∀ (j i : ℕ) (c : Call) (h : Handle), d.owner j = some i → d.traffic.calls[j]? = some c →
    c.phase.isEnded = false → c.cancelRequested = true → d.process.mgr.handles[i]? = some h →
      h.cancelRequested = true
  waited : ∀ (i : ℕ) (h : Handle), d.process.mgr.handles[i]? = some h → h.phase = .calling →
    (∃ result, d.returning = some (i, result)) ∨
      ∃ (j : ℕ) (c : Call), d.owner j = some i ∧ d.traffic.calls[j]? = some c ∧
        c.phase.isEnded = false
  coming : ∀ i result, d.returning = some (i, result) → ∃ h : Handle,
    d.process.mgr.handles[i]? = some h ∧ h.phase = .calling ∧ h.cancelRequested = false

namespace Served

variable {i j : ℕ} {p : Process} {t : Traffic} {c : Call} {returning : Option (ℕ × Except PyExc Json)}
  {posted : List String}

theorem congr (hs : d.Served) (hhandles : d'.process.mgr.handles = d.process.mgr.handles)
    (hcalls : d'.traffic.calls = d.traffic.calls) (howners : d'.owners = d.owners)
    (hreturning : d'.returning = d.returning) : d'.Served := by
  have howner : d'.owner = d.owner := by
    unfold owner
    rw [howners]
  refine ⟨?_, ?_, ?_⟩
  · rw [howner, hcalls, hhandles]
    exact hs.heeded
  · rw [howner, hcalls, hhandles, hreturning]
    exact hs.waited
  · rw [hhandles, hreturning]
    exact hs.coming

theorem setPhase {phase : Phase} {h : Handle} (hs : d.Served)
    (hat : d.process.mgr.handles[i]? = some h)
    (hhandles : p.mgr.handles = (d.process.mgr.setPhase i phase).handles) (hphase : phase ≠ .calling)
    (hreturn : ∀ k result, d.returning = some (k, result) → k = i) :
    Served { d with process := p, returning := none } := by
  have hcases : ∀ (k : ℕ) (l : Handle), p.mgr.handles[k]? = some l →
      (k = i ∧ l = { h with phase := phase }) ∨ (i ≠ k ∧ d.process.mgr.handles[k]? = some l) :=
    fun k l hl => Coherent.setPhase_cases hat (hhandles ▸ hl)
  refine ⟨?_, ?_, nofun⟩
  · intro j k c l hj hc hlive hreq hl
    rcases hcases k l hl with ⟨rfl, rfl⟩ | ⟨-, hl⟩
    · exact hs.heeded j k c h hj hc hlive hreq hat
    · exact hs.heeded j k c l hj hc hlive hreq hl
  · intro k l hl hph
    rcases hcases k l hl with ⟨rfl, rfl⟩ | ⟨hne, hl⟩
    · exact absurd hph hphase
    · refine Or.inr ((hs.waited k l hl hph).resolve_left ?_)
      rintro ⟨result, hr⟩
      exact hne (hreturn k result hr).symm

theorem traffic {phase : CallPhase} (hs : d.Served) (hnone : d.returning = none)
    (hc : d.traffic.calls[j]? = some c) (hlive : c.phase.isEnded = false)
    (hcalls : t.calls = d.traffic.calls.set j { c with phase := phase })
    (hover : ∀ (i : ℕ) (h : Handle), d.owner j = some i → d.process.mgr.handles[i]? = some h →
      h.phase = .calling → phase.isEnded = true → ∃ result, returning = some (i, result))
    (hcoming : ∀ i result, returning = some (i, result) → ∃ h : Handle,
      d.process.mgr.handles[i]? = some h ∧ h.phase = .calling ∧ h.cancelRequested = false) :
    Served { d with traffic := t, returning := returning, posted := posted } := by
  have hlt := (List.getElem?_eq_some_iff.mp hc).1
  have hself : t.calls[j]? = some { c with phase := phase } := by
    rw [hcalls, List.getElem?_set_self hlt]
  have hother : ∀ k, k ≠ j → t.calls[k]? = d.traffic.calls[k]? := by
    intro k hk
    rw [hcalls, List.getElem?_set_ne (Ne.symm hk)]
  refine ⟨?_, ?_, hcoming⟩
  · intro k i c' h hk hc' hlive' hreq hat
    by_cases he : k = j
    · subst he
      rw [show t.calls[k]? = some c' from hc'] at hself
      cases hself
      exact hs.heeded k i c h hk hc hlive hreq hat
    · exact hs.heeded k i c' h hk ((hother k he).symm.trans hc') hlive' hreq hat
  · intro i h hat hph
    obtain ⟨k, c', hk, hc', hlive'⟩ := (hs.waited i h hat hph).resolve_left (by rw [hnone]; nofun)
    by_cases he : k = j
    · subst he
      cases hend : phase.isEnded with
      | true => exact Or.inl (hover i h hk hat hph hend)
      | false => exact Or.inr ⟨k, _, hk, hself, hend⟩
    · exact Or.inr ⟨k, c', hk, (hother k he).trans hc', hlive'⟩

theorem ask (hs : d.Served) (howner : d.owner j = none)
    (hcalls : t.calls = d.traffic.calls.set j { c with cancelRequested := true }) :
    Served { d with traffic := t } := by
  have hother : ∀ (k i : ℕ), d.owner k = some i → t.calls[k]? = d.traffic.calls[k]? := by
    intro k i hk
    rw [hcalls, List.getElem?_set_ne]
    rintro rfl
    rw [howner] at hk
    cases hk
  refine ⟨?_, ?_, hs.coming⟩
  · intro k i c' h hk hc'
    exact hs.heeded k i c' h hk ((hother k i hk).symm.trans hc')
  · intro i h hat hph
    refine (hs.waited i h hat hph).imp_right ?_
    rintro ⟨k, c', hk, hc', hlive⟩
    exact ⟨k, c', hk, (hother k i hk).trans hc', hlive⟩

theorem call {phase : CallPhase} {r : ℕ} {workerId : String} {o : Option ℕ} (hs : d.Served)
    (hlen : d.owners.length = d.traffic.calls.length)
    (hcalls : t.calls = d.traffic.calls ++ [⟨r, workerId, d.traffic.now, phase, false⟩])
    (hhandles : ∀ (i : ℕ) (h : Handle), p.mgr.handles[i]? = some h → o ≠ some i →
      d.process.mgr.handles[i]? = some h)
    (hold : ∀ i, o = some i → ∀ j, d.owner j ≠ some i)
    (hreturn : ∀ i, o = some i → phase.isEnded = true → ∃ result, returning = some (i, result))
    (hcoming : ∀ i result, returning = some (i, result) → ∃ h : Handle,
      p.mgr.handles[i]? = some h ∧ h.phase = .calling ∧ h.cancelRequested = false)
    (hnone : d.returning = none) :
    Served { d with
      process := p, traffic := t, owners := d.owners ++ [o], returning := returning,
      posted := posted } := by
  have hnew : t.calls[d.traffic.calls.length]? = some ⟨r, workerId, d.traffic.now, phase, false⟩ := by
    rw [hcalls, List.getElem?_concat_length]
  have hkeep : ∀ (j i : ℕ), d.owner j = some i → t.calls[j]? = d.traffic.calls[j]? := by
    intro j i hj
    rw [hcalls, List.getElem?_append_left]
    rw [← hlen]
    by_contra hge
    unfold owner at hj
    rw [List.getElem?_eq_none (by omega)] at hj
    cases hj
  refine ⟨?_, ?_, hcoming⟩
  · intro j i c h hj hc hlive hreq hat
    rcases owner_append.mp hj with hj | ⟨rfl, hj⟩
    · refine hs.heeded j i c h hj ((hkeep j i hj).symm.trans hc) hlive hreq (hhandles i h hat ?_)
      intro he
      exact hold i he j hj
    · rw [hlen] at hc
      rw [show t.calls[d.traffic.calls.length]? = some c from hc] at hnew
      cases hnew
      cases hreq
  · intro i h hat hph
    by_cases ho : o = some i
    · cases hend : phase.isEnded with
      | true => exact Or.inl (hreturn i ho hend)
      | false =>
        exact Or.inr ⟨d.owners.length, _, owner_append.mpr (Or.inr ⟨rfl, ho⟩), hlen ▸ hnew, hend⟩
    · obtain ⟨j, c, hj, hc, hlive⟩ := (hs.waited i h (hhandles i h hat ho) hph).resolve_left
        (by rw [hnone]; nofun)
      exact Or.inr ⟨j, c, owner_append.mpr (Or.inl hj), (hkeep j i hj).trans hc, hlive⟩

theorem relay {a : Action} (hs : d.Served) (hnone : d.returning = none) (hi : d.process.Inv)
    (hl : d.Linked) (ha : a.ofManager d.process = true) (hact : d.process.act host a = some p) :
    Served (Running.relay { d with process := p }) := by
  have hm := Process.act_moves hi hact
  have htold := relay_told { d with process := p }
  have hne : ∀ i attemptId now, a ≠ .resume i attemptId now := by
    rintro i attemptId now rfl
    cases ha
  refine ⟨?_, ?_, ?_⟩
  · intro j i c' h hj hc' hlive hreq hat
    obtain ⟨c, hc, hph, hasked⟩ := htold.call j c' hc'
    rcases hasked hreq with hreq | ⟨k, hk, hask⟩
    · obtain ⟨l, hl, -⟩ := hl.sent j i hj
      rcases hm.handle_calling hne hat with ⟨k, hk, -, hmono⟩ | ⟨hnone, -⟩
      · exact hmono (hs.heeded j i c k hj hc (hph ▸ hlive) hreq hk)
      · rw [hnone] at hl
        cases hl
    · obtain rfl : i = k := Option.some.inj (Eq.trans (Eq.symm hj) hk)
      rw [← Process.asked_of_at hat]
      exact hask
  · intro i h hat hph
    rcases hm.handle_calling hne hat with ⟨k, hk, hcalling, -⟩ | ⟨-, hcreated⟩
    · obtain ⟨j, c, hj, hc, hlive⟩ := (hs.waited i k hk (hcalling hph)).resolve_left
        (by rw [hnone]; nofun)
      obtain ⟨c', hc', hph'⟩ := htold.back hc
      exact Or.inr ⟨j, c', hj, hc', hph' ▸ hlive⟩
    · rw [hph] at hcreated
      cases hcreated
  · intro i result hr
    rw [show (Running.relay { d with process := p }).returning = d.returning from rfl, hnone] at hr
    cases hr

end Served

theorem resume_phase {i : ℕ} {attemptId now : String} {p : Process} (hi : d.process.Inv)
    (hp : d.process.resume host i attemptId now = some p) : ∃ h phase,
    d.process.mgr.handles[i]? = some h ∧ h.phase.unsent = true ∧ h.cancelRequested = false ∧
      p.mgr.handles = (d.process.mgr.setPhase i phase).handles ∧
      phase.turns < h.phase.turns ∧
      (p.calling i = true → phase = .calling) ∧ (p.calling i = false → phase ≠ .calling) := by
  obtain ⟨h, phase, hat, hunsent, hreq, hhandles, hlt⟩ : ∃ h phase,
      d.process.mgr.handles[i]? = some h ∧ h.phase.unsent = true ∧ h.cancelRequested = false ∧
        p.mgr.handles = (d.process.mgr.setPhase i phase).handles ∧
        phase.turns < h.phase.turns := by
    obtain ⟨h, r, hat, hph, hreq, -, hcase⟩ := Process.resume_cases hi hp
    have hunsent : h.phase.unsent = true := by
      rcases hph with hph | hph <;> rw [hph] <;> rfl
    have hmany : 5 ≤ h.phase.turns := by
      rcases hph with hph | hph <;> simp [hph, Phase.turns]
    rcases hcase with ⟨-, rfl⟩ | ⟨hcreated, -, rfl⟩ | ⟨-, store, -, rfl⟩
    · exact ⟨h, .finished, hat, hunsent, hreq, rfl, lt_of_lt_of_le (by simp [Phase.turns]) hmany⟩
    · exact ⟨h, .sleeping r, hat, hunsent, hreq, rfl, by simp [hcreated, Phase.turns]⟩
    · exact ⟨h, .calling, hat, hunsent, hreq, rfl, lt_of_lt_of_le (by simp [Phase.turns]) hmany⟩
  have hself : p.mgr.handles[i]? = some { h with phase := phase } := by
    rw [hhandles, Coherent.setPhase_self hat]
  refine ⟨h, phase, hat, hunsent, hreq, hhandles, hlt, ?_, ?_⟩
  · intro hcalling
    obtain ⟨l, hl, hph⟩ := Process.calling_iff.mp hcalling
    rw [hself] at hl
    cases hl
    exact hph
  · rintro hquiet rfl
    rw [Process.calling_iff.mpr ⟨_, hself, rfl⟩] at hquiet
    cases hquiet

theorem send_begins {i : ℕ} (h : d.send i = some d') : ∃ sent rest reg phase,
    d.process.world.calls = sent :: rest ∧ d.traffic.registries[d.current]? = some reg ∧
      Traffic.Begins d.traffic d.current reg sent.workerId d'.traffic ∧
      d'.traffic.calls = d.traffic.calls ++
        [⟨d.current, sent.workerId, d.traffic.now, phase, false⟩] ∧
      d' = { d with
        traffic := d'.traffic
        owners := d.owners ++ [some i]
        returning := phase.result.map fun result => (i, result)
        posted := d'.posted } := by
  unfold send at h
  split at h
  · cases h
  · next sent rest hcalls =>
    obtain ⟨t, hstep, rfl⟩ := Option.map_eq_some_iff.mp h
    obtain ⟨reg, hreg, rfl⟩ := Option.map_eq_some_iff.mp hstep
    have hb := Traffic.call_begins d.traffic d.current reg sent.workerId
    obtain ⟨phase, hph, -⟩ := hb.phase
    refine ⟨sent, rest, reg, phase, hcalls, hreg, hb, hph, ?_⟩
    simp only [hph, List.getElem?_concat_length, Option.map_some, Option.bind_some]

theorem Turns.served (hi : d.process.Inv) (hl : d.Linked) (hs : d.Served)
    (h : d.Turns host turn d') : d'.Served := by
  have hplain : ∀ {t : Traffic} {j : ℕ} {e : TrafficEvent}, d.returning = none →
      d.traffic.step e = some t → e.place = some j → e ≠ .cancel j →
      (∀ (i : ℕ) (h : Handle), d.owner j = some i → d.process.mgr.handles[i]? = some h →
        h.phase = .calling → e.ends = false) → ∀ posted,
      Served { d with traffic := t, posted := posted } := by
    intro t j e hnone hstep hplace hcancel hover posted
    obtain ⟨c, phase, hc, hlive, hcalls, hend⟩ := (Traffic.step_moves hstep).takes hplace hcancel
    refine hs.traffic hnone hc hlive hcalls ?_ hs.coming
    intro i h hj hat hph hended
    rw [hend, hover i h hj hat hph] at hended
    cases hended
  cases h with
  | manager hnone ha hact => exact hs.relay hnone hi hl ha hact
  | reload | ticked => exact hs.congr rfl rfl rfl rfl
  | resumed hnone hp hquiet =>
    obtain ⟨h, phase, hat, -, -, hhandles, -, -, hphase⟩ := resume_phase hi hp
    have hgo := hs.setPhase hat hhandles (hphase hquiet) (by rw [hnone]; nofun)
    exact hgo.congr rfl rfl rfl hnone
  | @sent i attemptId now p d' hnone hp hcalling hsend =>
    obtain ⟨h, phase, hat, hunsent, hreq, hhandles, -, hphase, -⟩ := resume_phase hi hp
    obtain rfl := hphase hcalling
    obtain ⟨sent, rest, reg, phase, -, -, hb, hcalls, hd'⟩ := send_begins hsend
    obtain ⟨phase', hcalls', -, hresult⟩ := hb.phase
    obtain rfl : phase = phase' := by
      rw [hcalls] at hcalls'
      simpa using hcalls'
    have hself : p.mgr.handles[i]? = some { h with phase := .calling } := by
      rw [hhandles, Coherent.setPhase_self hat]
    rw [hd']
    refine hs.call hl.owners hcalls ?_ ?_ ?_ ?_ hnone
    · intro k l hk hne
      rw [hhandles, Coherent.setPhase_ne fun he => hne (congrArg some he)] at hk
      exact hk
    · rintro i' ⟨⟩ j hj
      obtain ⟨l, hlat, hsent⟩ := hl.sent j i hj
      rw [hat] at hlat
      cases hlat
      rw [hunsent] at hsent
      cases hsent
    · rintro i' ⟨⟩ hend
      obtain ⟨result, rfl⟩ := hresult hend
      exact ⟨result, rfl⟩
    · intro i' result hr
      obtain ⟨_, -, he⟩ := Option.map_eq_some_iff.mp hr
      obtain ⟨rfl, -⟩ := Prod.mk.inj he
      exact ⟨_, hself, rfl, hreq⟩
  | @proceeded j t hnone hstep =>
    exact hplain hnone hstep rfl nofun (fun _ _ _ _ _ => rfl) _
  | @responded j response t hnone hstep =>
    obtain ⟨c, result, hc, hlive, hreq, hafter⟩ := (Traffic.step_moves hstep).answer
    obtain ⟨c₀, phase, hc₀, -, hcalls, -⟩ := (Traffic.step_moves hstep).takes rfl nofun
    obtain rfl := Option.some.inj (hc.symm.trans hc₀)
    obtain rfl : phase = .ended (some result) := by
      rw [hcalls, List.getElem?_set_self (List.getElem?_eq_some_iff.mp hc).1] at hafter
      simpa using hafter
    refine hs.traffic hnone hc hlive hcalls ?_ ?_
    · intro i h hj _ _ _
      rw [hj, hafter]
      exact ⟨result, rfl⟩
    · intro i result' hr
      obtain ⟨i', hj, hr⟩ := Option.bind_eq_some_iff.mp hr
      obtain ⟨_, -, he⟩ := Option.map_eq_some_iff.mp hr
      obtain ⟨rfl, -⟩ := Prod.mk.inj he
      obtain ⟨h, hat, hph, hasked⟩ := hl.waits j i' c hj hc hlive
      refine ⟨h, hat, hph, Bool.eq_false_iff.mpr fun hr => ?_⟩
      rw [hasked hr] at hreq
      cases hreq
  | @aborted i j now t p hnone hstep howner hp =>
    obtain ⟨h, -, hat, -⟩ := Process.throwCancelled_cases hi hp
    have hhandles := Process.throwCancelled_handles hi hp
    have hgo := hs.setPhase hat hhandles nofun (by rw [hnone]; nofun)
    obtain ⟨c, phase, hc, hlive, hcalls, -⟩ := (Traffic.step_moves hstep).takes rfl nofun
    have hend : Served { d with process := p, traffic := t, returning := none } := by
      refine hgo.traffic rfl hc hlive hcalls ?_ hgo.coming
      -- The coroutine of the call is no longer in `workers.call`.
      intro k l hk hl hph _
      obtain rfl : i = k := Option.some.inj (howner.symm.trans hk)
      rw [show p.mgr.handles[i]? = _ from congrArg (·[i]?) hhandles, Coherent.setPhase_self hat] at hl
      cases hl
      cases hph
    exact hend.congr rfl rfl rfl hnone
  | @dropped j now t hnone hstep howner =>
    refine hplain hnone hstep rfl nofun ?_ _
    intro i h hj
    rw [howner] at hj
    cases hj
  | @called workerId t hnone hstep =>
    obtain ⟨reg, hreg, rfl⟩ := Option.map_eq_some_iff.mp hstep
    obtain ⟨phase, hcalls, -⟩ := (Traffic.call_begins d.traffic d.current reg workerId).phase
    exact hs.call hl.owners hcalls (fun _ _ hk _ => hk) nofun nofun hs.coming hnone
  | @asked j t hnone howner hstep =>
    cases Traffic.step_moves hstep with
    | @cancel _ c reg hc => exact hs.ask howner (Traffic.cancel_frame d.traffic j c reg).1
  | @returned i result now d' hr h =>
    have hend : ∀ p, p.mgr.handles = (d.process.mgr.setPhase i .finished).handles →
        Served { d with process := p, returning := none } := by
      intro p hhandles
      obtain ⟨h, hat, -⟩ := hs.coming i result hr
      refine hs.setPhase hat hhandles nofun ?_
      intro k result' hk
      rw [hr] at hk
      cases hk
      rfl
    obtain ⟨p, hp, rfl⟩ := Option.map_eq_some_iff.mp h
    cases result with
    | ok data => exact hend p (Process.workerReturned_handles hi hp)
    | error exc => exact hend p (Process.workerRaised_handles hi hp)

structure Orderly (d : Running) : Prop where
  inv : d.process.Inv
  linked : d.Linked
  ended : d.Over
  served : d.Served
  sound : d.traffic.Sound
  inForce : 0 < d.traffic.registries.length

theorem registries_mono {s s' : Traffic} {e : TrafficEvent} (hstep : s.step e = some s') :
    s.registries.length ≤ s'.registries.length := by
  rcases (Traffic.step_moves hstep).workers with hsame | ⟨workers, -, -, hnew⟩
  · have := congrArg List.length hsame
    simp only [List.length_map] at this
    omega
  · have := congrArg List.length hnew
    simp only [List.length_map, List.length_append, List.length_singleton] at this
    omega

theorem Turns.traffic (h : d.Turns host turn d') : d'.traffic = d.traffic ∨
    (∃ e, d.traffic.step e = some d'.traffic) ∨
      ∃ p, Told { d with process := p } d.traffic d'.traffic := by
  -- A turn takes the calls one step on, tells some of a cancellation, or leaves them alone.
  cases h with
  | @manager a p => exact Or.inr (Or.inr ⟨p, relay_told { d with process := p }⟩)
  | @reload workers breaker => exact Or.inr (Or.inl ⟨.reload workers breaker, rfl⟩)
  | resumed => exact Or.inl rfl
  | sent _ _ _ hsend =>
    obtain ⟨sent, _, reg, _, _, hreg, -⟩ := send_begins hsend
    unfold send at hsend
    split at hsend
    · cases hsend
    · obtain ⟨t, hstep, rfl⟩ := Option.map_eq_some_iff.mp hsend
      exact Or.inr (Or.inl ⟨_, hstep⟩)
  | proceeded _ hstep => exact Or.inr (Or.inl ⟨_, hstep⟩)
  | responded _ hstep => exact Or.inr (Or.inl ⟨_, hstep⟩)
  | aborted _ hstep => exact Or.inr (Or.inl ⟨_, hstep⟩)
  | dropped _ hstep => exact Or.inr (Or.inl ⟨_, hstep⟩)
  | @ticked seconds _ hs => exact Or.inr (Or.inl ⟨.tick seconds, if_pos hs⟩)
  | called _ hstep => exact Or.inr (Or.inl ⟨_, hstep⟩)
  | asked _ _ hstep => exact Or.inr (Or.inl ⟨_, hstep⟩)
  | returned _ h =>
    obtain ⟨p, -, rfl⟩ := Option.map_eq_some_iff.mp h
    exact Or.inl rfl

theorem Orderly.advance (ho : d.Orderly) (h : d.advance host turn = some d') : d'.Orderly := by
  have hm := advance_moves h
  have ht := advance_turns h
  obtain ⟨hlinked, hover⟩ := hm.linked ho.inv ho.linked ho.ended
  have hcalls : d'.traffic.Sound ∧ 0 < d'.traffic.registries.length := by
    rcases ht.traffic with hsame | ⟨e, hstep⟩ | ⟨p, htold⟩
    · rw [hsame]
      exact ⟨ho.sound, ho.inForce⟩
    · exact ⟨Traffic.step_sound ho.sound hstep, ho.inForce.trans_le (registries_mono hstep)⟩
    · exact ⟨htold.sound ho.sound, htold.registries.symm ▸ ho.inForce⟩
  refine ⟨?_, hlinked, hover, ht.served ho.inv ho.linked ho.served, hcalls.1, hcalls.2⟩
  rcases hm.process with hsame | ⟨a, hact, -⟩
  · rw [hsame]
    exact ho.inv
  · exact (Process.act_moves ho.inv hact).inv ho.inv

def work (d : Running) : ℕ :=
  (d.process.mgr.handles.map fun h => h.phase.turns).sum + d.traffic.work

/-- A coroutine or a call goes on or ends, or a finished coroutine is taken from the dictionary. -/
def helps : Turn → Bool
  | .resume .. | .proceed _ | .respond .. | .goOn _ | .abort .. => true
  | .manager (.throwCancelled ..) | .manager (.doneCallback _) => true
  | .manager _ | .reload .. | .tick _ | .callSync _ | .cancelSync _ => false

def idles : Turn → Bool
  | .manager (.check _) | .manager (.cancel ..) | .manager .stop | .manager .stopped => true
  | .reload .. | .tick _ | .cancelSync _ => true
  | .manager _ | .resume .. | .proceed _ | .respond .. | .goOn _ | .abort .. | .callSync _ => false

theorem setPhase_eq_set {m : Manager} {i : ℕ} {h : Handle} (hat : m.handles[i]? = some h)
    (phase : Phase) : (m.setPhase i phase).handles = m.handles.set i { h with phase := phase } := by
  apply List.ext_getElem?
  intro j
  by_cases he : i = j
  · subst he
    rw [Coherent.setPhase_self hat, List.getElem?_set_self (List.getElem?_eq_some_iff.mp hat).1]
  · rw [Coherent.setPhase_ne he, List.getElem?_set_ne he]

theorem turns_setPhase {m : Manager} {i : ℕ} {h : Handle} (hat : m.handles[i]? = some h)
    (phase : Phase) : ((m.setPhase i phase).handles.map fun h => h.phase.turns).sum +
      h.phase.turns = (m.handles.map fun h => h.phase.turns).sum + phase.turns := by
  rw [setPhase_eq_set hat]
  exact Runs.sum_set_add (fun h : Handle => h.phase.turns) hat _

theorem turns_of_phases {m m' : Manager}
    (h : ∀ j : ℕ, m'.handles[j]?.map Handle.phase = m.handles[j]?.map Handle.phase) :
    (m'.handles.map fun h => h.phase.turns).sum = (m.handles.map fun h => h.phase.turns).sum := by
  have hphases : m'.handles.map Handle.phase = m.handles.map Handle.phase := by
    apply List.ext_getElem?
    intro j
    rw [List.getElem?_map, List.getElem?_map]
    exact h j
  have hmap : ∀ l : List Handle,
      (l.map fun h => h.phase.turns) = (l.map Handle.phase).map Phase.turns := by
    intro l
    rw [List.map_map]
    rfl
  rw [hmap, hmap, hphases]

theorem phase_of_cancelled {m m' : Manager} {c : Prop} [Decidable c] {j : ℕ}
    (hat : m'.handles[j]? = m.handles[j]?.map fun k => if c then k.cancel else k) :
    m'.handles[j]?.map Handle.phase = m.handles[j]?.map Handle.phase := by
  rw [hat, Option.map_map]
  cases m.handles[j]? with
  | none => rfl
  | some k => exact congrArg some (k.ite_cancel_phase _)

theorem turns_of_idle {a : Action} {p : Process} (ha : idles (.manager a) = true)
    (hact : d.process.act host a = some p) :
    (p.mgr.handles.map fun h => h.phase.turns).sum =
      (d.process.mgr.handles.map fun h => h.phase.turns).sum := by
  cases a with
  | check =>
    cases hact
    rfl
  | cancel taskId now =>
    cases hact
    cases hrow : d.process.row taskId with
    | none => rw [Process.cancel_missing now hrow]
    | some task =>
      by_cases ht : task.state ∈ terminalStates
      · rw [Process.cancel_terminal now hrow ht]
      · obtain ⟨store, -, hcancel⟩ := Process.cancel_live now hrow ht
        rw [hcancel]
        refine turns_of_phases fun j => ?_
        exact phase_of_cancelled (Coherent.cancelTracked_at d.process.mgr taskId j)
  | stop =>
    simp only [Process.act] at hact
    split at hact
    · cases hact
      unfold Process.stop
      split
      · rfl
      · refine turns_of_phases fun j => ?_
        exact phase_of_cancelled (Coherent.cancelBackground_at d.process.mgr j)
    · cases hact
  | stopped =>
    simp only [Process.act] at hact
    split at hact
    · split at hact
      · cases hact
        rfl
      · cases hact
    · cases hact
  | call | resume | workerReturned | workerRaised | throwCancelled | doneCallback | reload => cases ha

theorem turns_of_unsent {phase : Phase} (h : phase.unsent = true) : 5 ≤ phase.turns := by
  cases phase with
  | created | sleeping => simp [Phase.turns]
  | calling | finished | reaped => cases h

theorem turns_of_undone {phase : Phase} (h : phase.done = false) : 1 < phase.turns := by
  cases phase with
  | created | sleeping | calling => simp [Phase.turns]
  | finished | reaped => cases h

theorem Orderly.work_lt (ho : d.Orderly) (hhelps : helps turn = true) (h : d.Turns host turn d') :
    d'.work < d.work := by
  have hend : ∀ {i : ℕ} {now : String} {p : Process}, d.process.throwCancelled i now = some p →
      (p.mgr.handles.map fun h => h.phase.turns).sum <
        (d.process.mgr.handles.map fun h => h.phase.turns).sum := by
    intro i now p hp
    obtain ⟨k, -, hat, -, hdone, -⟩ := Process.throwCancelled_cases ho.inv hp
    have hset := turns_setPhase hat .finished
    rw [← Process.throwCancelled_handles ho.inv hp] at hset
    have hmany := turns_of_undone hdone
    have hone : Phase.finished.turns = 1 := rfl
    omega
  unfold work
  cases h with
  | @manager a p hnone ha hact =>
    have hcalls := (relay_told { d with process := p }).work
    show (p.mgr.handles.map fun h => h.phase.turns).sum + _ < _
    rw [hcalls]
    cases a with
    | throwCancelled i now => exact Nat.add_lt_add_right (hend hact) _
    | doneCallback i =>
      simp only [Process.act, Process.doneCallback] at hact
      obtain ⟨k, hat, hstep⟩ := Option.bind_eq_some_iff.mp hact
      split at hstep
      · next hph =>
        cases hstep
        refine Nat.add_lt_add_right ?_ _
        have hset := turns_setPhase hat .reaped
        rw [hph] at hset
        have hone : Phase.finished.turns = 1 := rfl
        have hzero : Phase.reaped.turns = 0 := rfl
        show ((d.process.mgr.setPhase i .reaped).handles.map fun h => h.phase.turns).sum < _
        omega
      · cases hstep
    | call | check | cancel | resume | workerReturned | workerRaised | stop | stopped | reload =>
      cases hhelps
  | reload | ticked | called | asked => cases hhelps
  | @resumed i attemptId now p hnone hp =>
    obtain ⟨k, phase, hat, -, -, hhandles, hlt, -⟩ := resume_phase ho.inv hp
    have hset := turns_setPhase hat phase
    rw [← hhandles] at hset
    show (p.mgr.handles.map fun h => h.phase.turns).sum + d.traffic.work < _
    omega
  | sent hnone hp hcalling hsend =>
    obtain ⟨k, phase, hat, hunsent, -, hhandles, -, hphase, -⟩ := resume_phase ho.inv hp
    obtain rfl := hphase hcalling
    have hset := turns_setPhase hat .calling
    rw [← hhandles] at hset
    have hmany := turns_of_unsent hunsent
    have htwo : Phase.calling.turns = 2 := rfl
    obtain ⟨sent, rest, reg, -, -, -, hb, -⟩ := send_begins hsend
    obtain ⟨phase, hcalls, hsteps, -⟩ := hb.phase
    have hwork : d'.traffic.work = d.traffic.work + Traffic.steps phase := by
      unfold Traffic.work
      rw [hcalls]
      simp
    rw [send_process hsend, hwork]
    dsimp only
    omega
  | proceeded _ hstep => exact Nat.add_lt_add_left ((Traffic.step_moves hstep).work_lt rfl) _
  | responded _ hstep => exact Nat.add_lt_add_left ((Traffic.step_moves hstep).work_lt rfl) _
  | aborted _ hstep _ hp =>
    exact Nat.add_lt_add (hend hp) ((Traffic.step_moves hstep).work_lt rfl)
  | dropped _ hstep => exact Nat.add_lt_add_left ((Traffic.step_moves hstep).work_lt rfl) _
  | @returned i result now d' hr h =>
    obtain ⟨k, hat, hph, -⟩ := ho.served.coming i result hr
    have hfinish : ∀ p : Process, p.mgr.handles = (d.process.mgr.setPhase i .finished).handles →
        (p.mgr.handles.map fun h => h.phase.turns).sum + d.traffic.work <
          (d.process.mgr.handles.map fun h => h.phase.turns).sum + d.traffic.work := by
      intro p hhandles
      have hset := turns_setPhase hat .finished
      rw [← hhandles, hph] at hset
      have hone : Phase.finished.turns = 1 := rfl
      have htwo : Phase.calling.turns = 2 := rfl
      omega
    obtain ⟨p, hp, rfl⟩ := Option.map_eq_some_iff.mp h
    cases result with
    | ok data => exact hfinish p (Process.workerReturned_handles ho.inv hp)
    | error exc => exact hfinish p (Process.workerRaised_handles ho.inv hp)

theorem Turns.work_eq (hidles : idles turn = true) (h : d.Turns host turn d') :
    d'.work = d.work := by
  unfold work
  cases h with
  | @manager a p hnone ha hact =>
    show (p.mgr.handles.map fun h => h.phase.turns).sum + _ = _
    rw [turns_of_idle hidles hact, (relay_told { d with process := p }).work]
  | reload | ticked => rfl
  | asked _ _ hstep => rw [(Traffic.step_moves hstep).work_eq rfl]
  | resumed | sent | proceeded | responded | aborted | dropped | called | returned => cases hidles

theorem advance_of_none (hnone : d.returning = none) (turn : Turn) :
    d.advance host turn = d.between host turn := by
  unfold advance
  rw [hnone]

theorem awaiting_of_at {p : Process} {i : ℕ} {h : Handle} (hat : p.mgr.handles[i]? = some h)
    (hph : h.phase = .calling) (hreq : h.cancelRequested = false) : p.awaiting i = some h := by
  unfold Process.awaiting Process.runnable
  simp [hat, hph, hreq]

theorem Served.exists_goOn {i : ℕ} {result : Except PyExc Json} (hs : d.Served)
    (hr : d.returning = some (i, result)) (now : String) :
    ∃ d', d.advance host (.goOn now) = some d' := by
  obtain ⟨h, hat, hph, hreq⟩ := hs.coming i result hr
  have hawait := awaiting_of_at hat hph hreq
  unfold advance
  rw [hr]
  cases result with
  | ok data =>
    simp only [goOn, Process.workerReturned, hawait, Option.map_some]
    exact ⟨_, rfl⟩
  | error exc =>
    simp only [goOn, Process.workerRaised, hawait, Option.map_some]
    exact ⟨_, rfl⟩

theorem Orderly.exists_step (ho : d.Orderly) (hnone : d.returning = none) {j : ℕ} {c : Call}
    (hc : d.traffic.calls[j]? = some c) (hlive : c.phase.isEnded = false)
    (hready : d.traffic.Ready j c) :
    ∃ turn d', helps turn = true ∧ d.advance host turn = some d' := by
  cases hready with
  | thrown hreq h =>
    obtain ⟨t, hstep⟩ := h
    refine ⟨.abort j "", ?_⟩
    rw [advance_of_none hnone]
    simp only [between, hstep, Option.bind_some]
    cases howner : d.owner j with
    | none => exact ⟨_, rfl, rfl⟩
    | some i =>
      -- The call was cancelled with its coroutine, which waits for it.
      obtain ⟨k, hat, hph, -⟩ := ho.linked.waits j i c howner hc hlive
      have hasked := ho.served.heeded j i c k howner hc hlive hreq hat
      obtain ⟨p, hp, -⟩ := Process.exists_throwCancelled "" hat hasked (by rw [hph]; rfl)
      simp only [hp, Option.map_some]
      exact ⟨_, rfl, rfl⟩
  | granted hreq h =>
    obtain ⟨t, hstep⟩ := h
    refine ⟨.proceed j, ?_⟩
    rw [advance_of_none hnone]
    simp only [between, hstep, Option.map_some]
    exact ⟨_, rfl, rfl⟩
  | posting hreq h =>
    obtain ⟨t, hstep⟩ := h (.ok .null)
    refine ⟨.respond j (.ok .null), ?_⟩
    rw [advance_of_none hnone]
    simp only [between, hstep, Option.map_some]
    exact ⟨_, rfl, rfl⟩

theorem Orderly.exists_resume (ho : d.Orderly) (hnone : d.returning = none) {i : ℕ} {h : Handle}
    (hat : d.process.mgr.handles[i]? = some h) (hunsent : h.phase.unsent = true)
    (hreq : h.cancelRequested = false) : ∃ d', d.advance host (.resume i "" "") = some d' := by
  obtain ⟨p, hp⟩ : ∃ p, d.process.resume host i "" "" = some p := by
    unfold Process.resume Process.runnable
    simp only [hat, hreq, Option.filter_some, Bool.not_false, if_true, Option.bind_some]
    cases hph : h.phase with
    | created | sleeping => exact ⟨_, rfl⟩
    | calling | finished | reaped =>
      rw [hph] at hunsent
      cases hunsent
  rw [advance_of_none hnone]
  simp only [between, hp, Option.bind_some]
  split
  · next hcalling =>
    obtain ⟨-, sent, rest, hcalls, -⟩ := resume_sent ho.inv hp hcalling
    have hlt : d.current < d.traffic.registries.length := by
      unfold current
      have := ho.inForce
      omega
    unfold send
    simp only [hcalls]
    have hstep : d.traffic.step (.call d.current sent.workerId) = some
        (d.traffic.call d.current d.traffic.registries[d.current] sent.workerId) :=
      Option.map_eq_some_iff.mpr ⟨_, List.getElem?_eq_getElem hlt, rfl⟩
    exact ⟨_, Option.map_eq_some_iff.mpr ⟨_, hstep, rfl⟩⟩
  · exact ⟨_, rfl⟩

theorem Orderly.goes (ho : d.Orderly) (hwork : d.work ≠ 0) :
    ∃ turn d', helps turn = true ∧ d.advance host turn = some d' := by
  cases hr : d.returning with
  | some pair =>
    obtain ⟨i, result⟩ := pair
    obtain ⟨d', hd'⟩ := ho.served.exists_goOn hr ""
    exact ⟨_, d', rfl, hd'⟩
  | none =>
    by_cases hlive : ∃ (k : ℕ) (c : Call), d.traffic.calls[k]? = some c ∧ c.phase.isEnded = false
    · obtain ⟨k, c, hc, hl⟩ := hlive
      obtain ⟨j, c', hc', -, -, hl', hready⟩ := ho.sound.goes hc hl
      exact ho.exists_step hr hc' hl' hready
    · -- No call is left, so a coroutine is.
      have hcalls : d.traffic.work = 0 := by
        by_contra hne
        obtain ⟨k, c, hc, hsteps⟩ :=
          Runs.exists_of_sum_ne_zero (fun c : Call => Traffic.steps c.phase) hne
        refine hlive ⟨k, c, hc, Bool.eq_false_iff.mpr fun hend => ?_⟩
        exact hsteps (Traffic.steps_eq_zero.mpr hend)
      have hturns : (d.process.mgr.handles.map fun h => h.phase.turns).sum ≠ 0 := by
        intro hzero
        apply hwork
        unfold work
        rw [hzero, hcalls]
      obtain ⟨i, h, hat, hne⟩ := Runs.exists_of_sum_ne_zero (fun h : Handle => h.phase.turns) hturns
      have hunsent : h.phase.unsent = true →
          ∃ turn d', helps turn = true ∧ d.advance host turn = some d' := by
        intro hunsent
        cases hreq : h.cancelRequested with
        | false =>
          obtain ⟨d', hd'⟩ := ho.exists_resume hr hat hunsent hreq
          exact ⟨_, d', rfl, hd'⟩
        | true =>
          obtain ⟨p, hp, -⟩ :=
            Process.exists_throwCancelled "" hat hreq (Phase.not_done_of_unsent hunsent)
          refine ⟨.manager (.throwCancelled i ""), ?_⟩
          have hquiet : d.process.calling i = false := by
            rw [Bool.eq_false_iff]
            intro hcalling
            obtain ⟨k, hk, hph⟩ := Process.calling_iff.mp hcalling
            rw [hat] at hk
            cases hk
            rw [hph] at hunsent
            cases hunsent
          rw [advance_of_none hr]
          simp only [between, Action.ofManager, hquiet, Bool.not_false, if_true, Process.act, hp,
            Option.map_some]
          exact ⟨_, rfl, rfl⟩
      cases hph : h.phase with
      | created | sleeping => exact hunsent (by rw [hph]; rfl)
      | calling =>
        obtain ⟨_, hsome⟩ | ⟨j, c, -, hc, hl⟩ := ho.served.waited i h hat hph
        · rw [hr] at hsome
          cases hsome
        · exact absurd ⟨j, c, hc, hl⟩ hlive
      | finished =>
        refine ⟨.manager (.doneCallback i), ?_⟩
        rw [advance_of_none hr]
        simp only [between, Action.ofManager, if_true, Process.act, Process.doneCallback, hat,
          Option.bind_some, hph, Option.map_some]
        exact ⟨_, rfl, rfl⟩
      | reaped =>
        rw [hph] at hne
        exact absurd rfl hne

/-- The turns of a process from `d` on, without the crash that ends them. -/
def lifetime (host : Host) (d : Running) : Runs.Machine Running Turn :=
  ⟨d, fun d turn => d.advance host turn⟩

def fresh (p : Process) (settings : Settings) (breaker : CircuitBreakerConfig)
    (posted : List String) : Running :=
  ⟨p, (Traffic.machine settings.workers breaker).start, [], none, posted⟩

theorem draining (start : Running) :
    (lifetime host start).Draining Orderly helps idles work where
  keeps _ _ _ ho _ h := ho.advance h
  lowers _ _ _ ho hhelps h := ho.work_lt hhelps (advance_turns h)
  bears _ _ _ _ hidles h := ((advance_turns h).work_eq hidles).le
  goes _ ho hwork := ho.goes hwork

/-- The condition of runs in which nobody stops the process. -/
def unstopped (_ : Running) (turn : Turn) : Prop := turn.stops = false

instance (d : Running) (turn : Turn) : Decidable (unstopped d turn) :=
  inferInstanceAs (Decidable (turn.stops = false))

theorem Turns.process (h : d.Turns host turn d') : d'.process = d.process ∨
    ∃ a, a.stops = turn.stops ∧ d.process.act host a = some d'.process := by
  cases h with
  | @manager a p _ _ hact => exact Or.inr ⟨a, rfl, hact⟩
  | @reload workers breaker recovery limits =>
    exact Or.inr ⟨.reload workers recovery limits, rfl, rfl⟩
  | @resumed i attemptId now p _ hp => exact Or.inr ⟨.resume i attemptId now, rfl, hp⟩
  | @sent i attemptId now p _ _ hp _ hsend =>
    refine Or.inr ⟨.resume i attemptId now, rfl, ?_⟩
    rw [send_process hsend]
    exact hp
  | proceeded | responded | dropped | ticked | called | asked => exact Or.inl rfl
  | @aborted i j now t p _ _ _ hp => exact Or.inr ⟨.throwCancelled i now, rfl, hp⟩
  | @returned i result now d' hr h =>
    obtain ⟨p, hp, rfl⟩ := Option.map_eq_some_iff.mp h
    cases result with
    | ok data => exact Or.inr ⟨.workerReturned i data now, rfl, hp⟩
    | error exc => exact Or.inr ⟨.workerRaised i exc now, rfl, hp⟩

variable {w : World} {settings : Settings} {breaker : CircuitBreakerConfig} {now : String}
  {p : Process} {posted : List String}

theorem orderly_fresh (hw : (Bridge.machine host).Reachable Runs.anyStep (.down w))
    (hp : Bridge.started w settings now = some p) : (fresh p settings breaker posted).Orderly := by
  obtain ⟨w', ready, -, hboot⟩ := started_booted hp
  refine ⟨Process.started_inv hw hp, Deployment.linked_start, .of_none rfl, ⟨?_, ?_, nofun⟩,
    Traffic.sound_start, Nat.one_pos⟩
  · intro j i c h hj
    cases hj
  · intro i h hat hph
    obtain ⟨t, -, rfl⟩ := hboot.at_iff.mp hat
    cases hph

theorem orderly_of_reachable {start : Running} {ok : Running → Turn → Prop} (h0 : start.Orderly)
    (h : (lifetime host start).Reachable ok d) : d.Orderly :=
  h.invariant h0 fun _ _ _ _ ho hstep => Orderly.advance ho hstep

theorem process_of_reachable {start : Running} (h : (lifetime host start).Reachable unstopped d) :
    (start.process.lifetime host).Reachable Process.unstopped d.process := by
  refine h.invariant (I := fun d =>
    (start.process.lifetime host).Reachable Process.unstopped d.process) .start ?_
  intro s turn s' hok hs hstep
  rcases (advance_turns hstep).process with hsame | ⟨a, hstops, hact⟩
  · rw [hsame]
    exact hs
  · exact hs.next (show a.stops = false from hstops.trans hok) hact

theorem done_of_work (h : d.work = 0) :
    (∀ k ∈ d.process.mgr.handles, k.phase.done = true) ∧
      ∀ c ∈ d.traffic.calls, c.phase.isEnded = true := by
  obtain ⟨hturns, hcalls⟩ := Nat.add_eq_zero_iff.mp h
  refine ⟨?_, ?_⟩
  · intro k hk
    have hzero := (Runs.sum_eq_zero_iff fun h : Handle => h.phase.turns).mp hturns k hk
    cases hph : k.phase <;> simp [hph, Phase.turns] at hzero ⊢
    rfl
  · intro c hc
    exact Traffic.steps_eq_zero.mp
      ((Runs.sum_eq_zero_iff fun c : Call => Traffic.steps c.phase).mp hcalls c hc)

theorem mgr_done (h : d.work = 0) (i : ℕ) : d.process.mgr.done i = true := by
  unfold Manager.done
  cases hat : d.process.mgr.handles[i]? with
  | none => rfl
  | some k => exact (done_of_work h).1 k (List.mem_of_getElem? hat)

end Running

/-- In a process that has started, as long as a coroutine or a call is not over one of
them can go on, and as no turn adds work but a new call, they are all over in the end.
`stop` returns then, and if there was none every task is over that recovery has not put off. -/
theorem tasks_settle {host : Host} {w : World} {settings : Settings} {breaker : CircuitBreakerConfig}
    {now : String} {p : Process} {posted : List String} {d : Running}
    (hw : (Bridge.machine host).Reachable Runs.anyStep (.down w))
    (hp : Bridge.started w settings now = some p)
    (hd : (Running.lifetime host (.fresh p settings breaker posted)).Reachable Runs.anyStep d) :
    (d.work ≠ 0 → ∃ turn d', Running.helps turn = true ∧ d.advance host turn = some d') ∧
    (∀ turns d', (∀ turn ∈ turns, (Running.helps turn || Running.idles turn) = true) →
      (Running.lifetime host d).run Runs.anyStep d turns = some d' →
        turns.countP Running.helps + d'.work ≤ d.work) ∧
    (d.work = 0 → d.process.mgr.hasActiveTasks = false ∧
      (∀ c ∈ d.traffic.calls, c.phase.isEnded = true) ∧
      (d.process.mgr.gathering ≠ none → ∃ d', d.advance host (.manager .stopped) = some d')) ∧
    ((Running.lifetime host (.fresh p settings breaker posted)).Reachable Running.unstopped d →
      d.work = 0 → ∀ id r, d.process.row id = some r → r.state ∈ terminalStates ∨
        (r.state = recovering ∧ p.row id = some r ∧
          recoveryAllowsReplay settings.recovery r = false)) := by
  have ho := Running.orderly_of_reachable (Running.orderly_fresh hw hp) hd
  refine ⟨ho.goes, ?_, ?_, ?_⟩
  · intro turns d' hturns hrun
    exact ((Running.draining d).run_le ho hturns hrun).2
  · intro hwork
    refine ⟨?_, (Running.done_of_work hwork).2, ?_⟩
    · unfold Manager.hasActiveTasks
      rw [List.any_eq_false]
      intro e _
      rw [Running.mgr_done hwork]
      exact Bool.false_ne_true
    · intro hgather
      have hnone : d.returning = none := by
        cases hr : d.returning with
        | none => rfl
        | some pair =>
          obtain ⟨k, hat, hph, -⟩ := ho.served.coming pair.1 pair.2 hr
          have hover := (Running.done_of_work hwork).1 k (List.mem_of_getElem? hat)
          rw [hph] at hover
          cases hover
      obtain ⟨gathered, hg⟩ := Option.ne_none_iff_exists'.mp hgather
      have hall : gathered.all d.process.mgr.done = true :=
        List.all_eq_true.mpr fun i _ => Running.mgr_done hwork i
      rw [Running.advance_of_none hnone]
      simp only [Running.between, Action.ofManager, if_true, Process.act, hg, hall, Option.map_some]
      exact ⟨_, rfl⟩
  · intro hquiet hwork id r hrow
    have hq := Running.process_of_reachable hquiet
    obtain ⟨w', ready, -, hboot⟩ := started_booted hp
    have hi : p.Inv := Process.started_inv hw hp
    have hs : p.mgr.started = true ∧ p.mgr.gathering = none := by
      rw [hboot.mgr]
      exact ⟨rfl, rfl⟩
    obtain ⟨hstarted, hgather⟩ := Process.unstopped_started hs hq hi
    have hlive : Live d.process.row d.process.mgr := ho.inv.coherent.live hstarted hgather
    have hput := Process.deferred_of_reachable hi hs
      (Process.booted_deferred (hi.coherent.live hs.1 hs.2) hboot) hq
    have hnone : ¬ d.process.Holds id := by
      rintro ⟨i, k, -, hat, -, hlive⟩
      rw [(Running.done_of_work hwork).1 k (List.mem_of_getElem? hat)] at hlive
      cases hlive
    by_cases hterm : r.state ∈ terminalStates
    · exact Or.inl hterm
    · right
      have hrec : r.state = recovering := by
        have hr := ho.inv.sound.notRetrying id r hrow
        have hheld := fun hst => hnone (Process.holds_of_unsettled ho.inv hlive hrow hst)
        revert hterm hr hheld
        cases r.state <;> decide
      exact ⟨hrec, (hput id r hrow hrec).resolve_left hnone⟩

def Sample.lifetime (p : Process) : Runs.Machine Running Turn :=
  Running.lifetime Sample.host (.fresh p (Sample.settings .always 0) Sample.breaker [])

/-- A task waits for the slot of another, and both are over in the end: one is
completed, and the worker fails the other. -/
theorem tasks_settle_two : ∃ d d' : Running,
    d.work = 7 ∧ (∃ turn d₁, Running.helps turn = true ∧ d.advance Sample.host turn = some d₁) ∧
    (d'.process.row "a").map TaskRecord.state = some completed ∧
    (d'.process.row "b").map TaskRecord.state = some failed ∧
    d'.process.mgr.hasActiveTasks = false := by
  have hrun : ((Bridge.started World.empty (Sample.settings .always 0) "t0").bind fun p =>
      ((Sample.lifetime p).run Runs.anyStep (Sample.lifetime p).start
        [.manager (.call ⟨"w", Sample.prompt, none⟩ "a" "t0"),
          .manager (.call ⟨"w", Sample.prompt, none⟩ "b" "t0"), .resume 0 "r" "t1",
          .resume 1 "s" "t2"]).bind fun d =>
        ((Sample.lifetime p).run Runs.anyStep d
          [.respond 0 (.ok (.obj [])), .goOn "t3", .manager (.doneCallback 0), .proceed 1,
            .respond 1 (.error (.other "ReadError".toList [])), .goOn "t4",
            .manager (.doneCallback 1)]).map fun d' =>
          decide (d.work = 7) && (decide (d'.work = 0) &&
            (decide ((d'.process.row "a").map TaskRecord.state = some completed) &&
              decide ((d'.process.row "b").map TaskRecord.state = some failed)))) = some true := by
    decide +kernel
  obtain ⟨p, hp, hrest⟩ := Option.bind_eq_some_iff.mp hrun
  obtain ⟨d, hd, hrest⟩ := Option.bind_eq_some_iff.mp hrest
  obtain ⟨d', hd', hcheck⟩ := Option.map_eq_some_iff.mp hrest
  simp only [Bool.and_eq_true, decide_eq_true_eq] at hcheck
  obtain ⟨hwork, hdone, ha, hb⟩ := hcheck
  have hreach := Runs.Machine.reachable_of_run hd
  obtain ⟨hgo, -⟩ := tasks_settle .start hp hreach
  obtain ⟨-, -, hend, -⟩ := tasks_settle .start hp (hreach.leads (Runs.Machine.leads_of_run hd'))
  exact ⟨d, d', hwork, hgo (by rw [hwork]; decide), ha, hb, (hend hdone).1⟩

end WorkerBridge
