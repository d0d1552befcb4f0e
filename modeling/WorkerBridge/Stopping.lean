import WorkerBridge.Polling
import WorkerBridge.Runs
import Mathlib.Data.Rat.Floor
import Mathlib.Tactic.Linarith

namespace WorkerBridge.Watchdog

open Runs

section Machine

variable (lib : Library) (config : WatchdogConfig) (out : Outside) (taskId : Text)

/-- The loop, with the variables at the top of its rounds as states. -/
def polling : Machine Wait Unit where
  start := enter config out
  step s _ :=
    match iterate lib config out taskId s with
    | .again s' => some s'
    | .ended _ => none

/-- The requests up to the end of the round that begins with `s`. -/
def requests (s : Wait) : ℕ := if s.deadline ≤ out.clock s.readings then s.checks else s.checks + 1

/-- The clock never goes back, and a sleep of `d` seconds takes that time at least. -/
structure Passes : Prop where
  monotone : Monotone out.clock
  slept : ∀ s s' d, (polling lib config out taskId).Reachable anyStep s →
    (polling lib config out taskId).step s () = some s' → s'.sleeps = d :: s.sleeps →
      out.clock (s'.readings - 1) + d ≤ out.clock s'.readings

/-- The wait ends and makes `n` requests at most, and each round asks for no sleep, or for one
that is not longer than the time left. -/
structure Stops (n : ℕ) : Prop where
  ends : ∃ outcome, Ends lib config out taskId outcome
  requests : ∀ s, (polling lib config out taskId).Reachable anyStep s → requests out s ≤ n
  sleeps : ∀ s s', (polling lib config out taskId).Reachable anyStep s →
    (polling lib config out taskId).step s () = some s' → s'.sleeps = s.sleeps ∨
      ∃ d, s'.sleeps = d :: s.sleeps ∧ 0 ≤ d ∧ d ≤ s.deadline - out.clock (s'.readings - 1)

end Machine

variable {lib : Library} {config : WatchdogConfig} {out : Outside} {taskId : Text} {k : ℕ}
  {s s' : Wait}

theorem iterate_again (h : iterate lib config out taskId s = .again s') :
    ∃ t : Wait, s' = sleepUntilNextPoll config out t ∧ t.deadline = s.deadline ∧
      t.readings = s.readings + 1 ∧ t.checks = s.checks + 1 ∧ t.sleeps = s.sleeps := by
  -- The sleep comes last in a round, after the second reading of the clock.
  unfold iterate at h
  dsimp only at h
  split at h
  · cases h
  · split at h
    · split at h
      · cases h
      · cases h
        exact ⟨_, rfl, rfl, rfl, rfl, rfl⟩
    · cases h
    · split at h
      · cases h
      · split at h
        · cases h
        · cases h
          exact ⟨_, rfl, rfl, rfl, rfl, rfl⟩

theorem step_eq_some (h : (polling lib config out taskId).step s () = some s') :
    iterate lib config out taskId s = .again s' := by
  simp only [polling] at h
  split at h
  · next hi =>
    cases h
    exact hi
  · cases h

theorem step_sleeps (hpoll : 0 ≤ config.pollInterval)
    (h : (polling lib config out taskId).step s () = some s') :
    s'.readings = s.readings + 2 ∧
      (s.deadline ≤ out.clock (s.readings + 1) ∧ s'.sleeps = s.sleeps ∨
        ∃ d, s'.sleeps = d :: s.sleeps ∧ 0 ≤ d ∧
          d = min config.pollInterval (s.deadline - out.clock (s.readings + 1))) := by
  obtain ⟨t, rfl, hd, hr, -, hs⟩ := iterate_again (step_eq_some h)
  refine ⟨by simp only [sleepUntilNextPoll, hr], ?_⟩
  simp only [sleepUntilNextPoll, hd, hr, hs]
  by_cases hleft : 0 < s.deadline - out.clock (s.readings + 1)
  · rw [if_pos hleft]
    exact Or.inr ⟨_, rfl, le_min hpoll hleft.le, rfl⟩
  · rw [if_neg hleft]
    exact Or.inl ⟨by linarith, rfl⟩

/-- Round `k` begins with `s`, at the deadline or after `k` poll intervals. -/
structure Elapsed (lib : Library) (config : WatchdogConfig) (out : Outside) (k : ℕ) (s : Wait) :
    Prop where
  at_top : At lib config out k s
  late : deadline config out ≤ out.clock s.readings ∨
    out.clock 0 + k * config.pollInterval ≤ out.clock s.readings
  bound : k ≤ ⌈config.timeoutSeconds / config.pollInterval⌉₊

theorem Elapsed.lt_ceil (hpoll : 0 < config.pollInterval) (h : Elapsed lib config out k s)
    (hearly : out.clock s.readings < deadline config out) :
    k < ⌈config.timeoutSeconds / config.pollInterval⌉₊ := by
  rcases h.late with hlate | hslept
  · exact absurd hearly (not_lt.mpr hlate)
  · rw [Nat.lt_ceil, lt_div_iff₀ hpoll]
    unfold deadline at hearly
    linarith

theorem Elapsed.next (hpoll : 0 < config.pollInterval) (hclock : Passes lib config out taskId)
    (hs : (polling lib config out taskId).Reachable anyStep s) (h : Elapsed lib config out k s)
    (hstep : (polling lib config out taskId).step s () = some s') :
    Elapsed lib config out (k + 1) s' := by
  rcases iterate_spec taskId h.at_top with ⟨t, hi, hk, ht⟩ | ⟨outcome, hi, -⟩
  · obtain rfl : t = s' := by
      have := hi.symm.trans (step_eq_some hstep)
      simpa using this
    have hearly : out.clock s.readings < deadline config out := h.at_top.readings ▸ hk.early
    refine ⟨ht, ?_, h.lt_ceil hpoll hearly⟩
    obtain ⟨hr, hsleep⟩ := step_sleeps hpoll.le hstep
    have hbegin : out.clock 0 + k * config.pollInterval ≤ out.clock s.readings :=
      h.late.resolve_left (not_le.mpr hearly)
    have hwork : out.clock s.readings ≤ out.clock (s.readings + 1) :=
      hclock.monotone (Nat.le_succ _)
    rw [h.at_top.deadline] at hsleep
    rcases hsleep with ⟨hlate, -⟩ | ⟨d, hd, -, hmin⟩
    · have hmore : out.clock (s.readings + 1) ≤ out.clock t.readings :=
        hclock.monotone (by omega)
      exact Or.inl (hlate.trans hmore)
    · have hslept := hclock.slept s t d hs hstep hd
      rw [hr, Nat.add_sub_assoc (by omega : 1 ≤ 2)] at hslept
      rw [hr]
      -- The sleep was a whole poll interval, or all the time that was left.
      rcases min_choice config.pollInterval (deadline config out - out.clock (s.readings + 1))
        with hc | hc
      · refine Or.inr ?_
        rw [hmin, hc] at hslept
        push_cast
        linarith
      · refine Or.inl ?_
        rw [hmin, hc] at hslept
        linarith
  · exact absurd (hi.symm.trans (step_eq_some hstep)) (by simp)

theorem elapsed_of_reachable (hpoll : 0 < config.pollInterval)
    (hclock : Passes lib config out taskId)
    (hs : (polling lib config out taskId).Reachable anyStep s) :
    ∃ k, Elapsed lib config out k s := by
  refine hs.invariant' (I := fun s => ∃ k, Elapsed lib config out k s)
    ⟨0, at_enter lib config out, Or.inr ?_, Nat.zero_le _⟩ ?_
  · have hfirst : out.clock 0 ≤ out.clock 1 := hclock.monotone (Nat.zero_le 1)
    rw [Nat.cast_zero, zero_mul, add_zero]
    exact hfirst
  · rintro s ⟨⟩ s' hs - ⟨k, hk⟩ hstep
    exact ⟨k + 1, hk.next hpoll hclock hs hstep⟩

theorem reachable_of_continues (taskId : Text) (h : ∀ j < k, Continues lib config out j) :
    ∃ s, (polling lib config out taskId).Reachable anyStep s ∧ At lib config out k s := by
  induction k with
  | zero => exact ⟨_, Machine.Reachable.start, at_enter lib config out⟩
  | succ k ih =>
    obtain ⟨s, hs, hat⟩ := ih fun j hj => h j (Nat.lt_succ_of_lt hj)
    rcases iterate_spec taskId hat with ⟨s', hi, -, hat'⟩ | ⟨outcome, -, hv⟩
    · refine ⟨s', hs.next (a := ()) trivial ?_, hat'⟩
      simp only [polling, hi]
    · exact absurd hv (h k (Nat.lt_succ_self k)).no_verdict

theorem ends_of_not_continues (taskId : Text) (h : ¬ ∀ k, Continues lib config out k) :
    ∃ outcome, Ends lib config out taskId outcome := by
  by_contra hno
  refine h fun k => ?_
  induction k using Nat.strong_induction_on with
  | h k ih =>
    rcases continues_or_verdict lib config out taskId k with hk | ⟨outcome, hv⟩
    · exact hk
    · exact absurd ⟨outcome, ends_iff.mpr ⟨k, ih, hv⟩⟩ hno

theorem requests_le (hpoll : 0 < config.pollInterval) (h : Elapsed lib config out k s) :
    requests out s ≤ ⌈config.timeoutSeconds / config.pollInterval⌉₊ := by
  unfold requests
  rw [h.at_top.deadline, h.at_top.checks]
  split
  · exact h.bound
  · next hearly => exact h.lt_ceil hpoll (not_le.mp hearly)

theorem stops_of_passes (hpoll : 0 < config.pollInterval)
    (hclock : Passes lib config out taskId) :
    Stops lib config out taskId ⌈config.timeoutSeconds / config.pollInterval⌉₊ := by
  refine ⟨ends_of_not_continues taskId fun hall => ?_, ?_, ?_⟩
  · obtain ⟨s, hs, hat⟩ := reachable_of_continues taskId
      (k := ⌈config.timeoutSeconds / config.pollInterval⌉₊ + 1) fun j _ => hall j
    obtain ⟨k, hk⟩ := elapsed_of_reachable hpoll hclock hs
    have hsame := hk.at_top.checks.symm.trans hat.checks
    have hbound := hk.bound
    omega
  · intro s hs
    obtain ⟨k, hk⟩ := elapsed_of_reachable hpoll hclock hs
    exact requests_le hpoll hk
  · intro s s' _ hstep
    obtain ⟨hr, hsleep⟩ := step_sleeps hpoll.le hstep
    rw [hr, Nat.add_sub_assoc (by omega : 1 ≤ 2)]
    rcases hsleep with ⟨-, hsame⟩ | ⟨d, hd, hpos, hmin⟩
    · exact Or.inl hsame
    · exact Or.inr ⟨d, hd, hpos, hmin.trans_le (min_le_right _ _)⟩

theorem Stops.mono {m n : ℕ} (hmn : m ≤ n) (h : Stops lib config out taskId m) :
    Stops lib config out taskId n :=
  ⟨h.ends, fun s hs => (h.requests s hs).trans hmn, h.sleeps⟩

theorem wait_stops (hpoll : 0 < config.pollInterval) (hclock : Passes lib config out taskId) :
    Stops lib config out taskId (⌈config.timeoutSeconds / config.pollInterval⌉₊ + 1) :=
  (stops_of_passes hpoll hclock).mono (Nat.le_succ _)

namespace Sample

/-- A second goes by between two readings, and no request comes through. -/
def unreachable : Outside := ⟨fun n => n, fun _ => .network "timed out".toList⟩

def brief : WatchdogConfig := ⟨1, 3, 5⟩

theorem unreachable_passes : Passes library brief unreachable "a".toList := by
  refine ⟨Nat.mono_cast, fun s s' d _ hstep hd => ?_⟩
  obtain ⟨hr, hsleep⟩ := step_sleeps (show (0 : ℚ) ≤ 1 by norm_num) hstep
  rcases hsleep with ⟨-, hsame⟩ | ⟨d', hd', -, hmin⟩
  · rw [hsame] at hd
    exact absurd hd (List.cons_ne_self d _).symm
  · obtain ⟨rfl, -⟩ := List.cons.inj (hd.symm.trans hd')
    have hle : d ≤ 1 := hmin.trans_le (min_le_left _ _)
    rw [hr]
    show ((s.readings + 1 : ℕ) : ℚ) + d ≤ ((s.readings + 2 : ℕ) : ℚ)
    push_cast
    linarith

end Sample

/-- Three seconds, with an interval of one. -/
theorem unreachable_stops : Stops Sample.library Sample.brief Sample.unreachable "a".toList
    (⌈Sample.brief.timeoutSeconds / Sample.brief.pollInterval⌉₊ + 1) :=
  wait_stops (show (0 : ℚ) < 1 by norm_num) Sample.unreachable_passes

end WorkerBridge.Watchdog
