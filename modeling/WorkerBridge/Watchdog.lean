import WorkerBridge.Json
import Mathlib.Algebra.Order.Ring.Rat
import Mathlib.Tactic.NormNum

/-!
# The watchdog

`watchdog.py`: one request, the polling loop and `main`.  The loop may go on for
ever, so it is run for a number of rounds.  A run sees two sequences: what each
reading of the clock gives, and what each request meets.
-/

namespace WorkerBridge.Watchdog

def completed : Text := "Completed".toList

def terminalStates : List Text :=
  [completed, "Failed".toList, "Cancelled".toList, "TimedOut".toList]

inductive WatchdogError
  | config (message : Text)
  | api (message : Text)
  | transient (message : Text)
  | timeout (message : Text)

def WatchdogError.str : WatchdogError → Text
  | config message => message
  | api message => message
  | transient message => message
  | timeout message => message

/-- What `check_task` and `print` can raise.  Only a `WatchdogError` is caught by `main`. -/
inductive Raised
  | watchdog (error : WatchdogError)
  | unicodeDecodeError
  | valueError
  | recursionError
  | osError
  | unicodeEncodeError

/-- What `json.loads` can raise.  `int` has a limit on the digits it takes, and the plain
`ValueError` of a longer number is no `JSONDecodeError`. -/
inductive LoadsError
  | jsonDecodeError
  | valueError
  | recursionError

/-- What the program takes from the standard library: `bytes.decode`, `json.loads`, `repr` of a
value that is no string, the format `g`, and `print(json.dumps(result, ...))`, which raises for a
value that is too deep or a text that the encoding of the output does not have.  What is printed
may stay in a buffer until the interpreter ends, and then not be `flushed`. -/
structure Library where
  decode : List UInt8 → Option Text
  loads : Text → Except LoadsError Json
  repr : Json → Text
  general : ℚ → Text
  print : Json → Except Raised Unit
  flushes : Json → Bool

/-- What one request meets.  The body of an HTTP error is decoded with replacements, or it is
`unread` when reading it fails, and `network` is `URLError`, `TimeoutError` or `OSError`. -/
inductive Reply
  | response (body : List UInt8)
  | httpError (code : ℕ) (body : Text)
  | unread (code : ℕ)
  | network (message : Text)

structure WatchdogConfig where
  pollInterval : ℚ
  timeoutSeconds : ℚ
  maxTransientErrors : ℤ

structure Outside where
  clock : ℕ → ℚ
  reply : ℕ → Reply

variable (lib : Library)

/-- `check_task`, from what its request meets. -/
def checkTask : Reply → Except Raised Json
  | .httpError code body =>
    let message := "bridge returned HTTP ".toList ++ (Nat.repr code).toList ++ ": ".toList ++ body
    if 500 ≤ code ∧ code ≤ 599 then .error (.watchdog (.transient message))
    else .error (.watchdog (.api message))
  -- The body is read in an `except` clause, which the next clause does not guard.
  | .unread _ => .error .osError
  | .network message => .error (.watchdog (.transient message))
  | .response body =>
    match lib.decode body with
    | none => .error .unicodeDecodeError
    | some raw =>
      match lib.loads raw with
      | .error .jsonDecodeError => .error (.watchdog (.api "bridge returned invalid JSON".toList))
      | .error .valueError => .error .valueError
      | .error .recursionError => .error .recursionError
      | .ok (.obj fields) =>
        match fields.lookup "ok".toList with
        | some (.bool false) =>
          let message := Json.orElse (fields.lookup "error".toList)
            (Json.orElse (fields.lookup "message".toList) (.str "bridge reported failure".toList))
          .error (.watchdog (.api (message.pyStr lib.repr)))
        | _ => .ok (.obj fields)
      | .ok _ => .error (.watchdog (.api "bridge returned a non-object JSON response".toList))

/-- `str(result.get("state") or "")`. -/
def stateOf (result : Json) : Text :=
  (Json.orElse (result.item "state".toList) (.str [])).pyStr lib.repr

/-- The variables of `wait_for_task` at the top of its loop, the readings and requests so far,
and the sleeps it has asked for, the last first. -/
structure Wait where
  deadline : ℚ
  transientErrors : ℕ
  lastState : Text
  readings : ℕ
  checks : ℕ
  sleeps : List ℚ

inductive Turn
  | ended (outcome : Except Raised Json)
  | again (s : Wait)

variable (config : WatchdogConfig) (out : Outside) (taskId : Text)

def sleepUntilNextPoll (s : Wait) : Wait :=
  let remaining := s.deadline - out.clock s.readings
  { s with
    readings := s.readings + 1
    sleeps := if 0 < remaining then min config.pollInterval remaining :: s.sleeps else s.sleeps }

def iterate (s : Wait) : Turn :=
  let now := out.clock s.readings
  if s.deadline ≤ now then
    .ended (.error (.watchdog (.timeout ("task ".toList ++ taskId ++
      " did not reach a terminal state within ".toList ++ lib.general config.timeoutSeconds ++
      "s; last state: ".toList ++ s.lastState))))
  else
    let reply := out.reply s.checks
    let s := { s with readings := s.readings + 1, checks := s.checks + 1 }
    match checkTask lib reply with
    | .error (.watchdog (.transient message)) =>
      let s := { s with transientErrors := s.transientErrors + 1 }
      if config.maxTransientErrors < s.transientErrors then
        .ended (.error (.watchdog (.transient ("task ".toList ++ taskId ++ " exceeded ".toList ++
          (toString config.maxTransientErrors).toList ++ " consecutive transient errors: ".toList ++
          message))))
      else .again (sleepUntilNextPoll config out s)
    | .error raised => .ended (.error raised)
    | .ok result =>
      let state := stateOf lib result
      if state ∈ terminalStates then .ended (.ok result)
      else if state = [] then
        .ended (.error (.watchdog (.api "bridge response is missing task state".toList)))
      else
        .again (sleepUntilNextPoll config out { s with transientErrors := 0, lastState := state })

def loop : ℕ → Wait → Option (Except Raised Json)
  | 0, _ => none
  | fuel + 1, s =>
    match iterate lib config out taskId s with
    | .ended outcome => some outcome
    | .again s => loop fuel s

/-- The loop is entered after the first reading of the clock. -/
def enter : Wait := ⟨out.clock 0 + config.timeoutSeconds, 0, "unknown".toList, 1, 0, []⟩

def waitForTask (fuel : ℕ) : Option (Except Raised Json) :=
  loop lib config out taskId fuel (enter config out)

def Ends (outcome : Except Raised Json) : Prop :=
  ∃ fuel, waitForTask lib config out taskId fuel = some outcome

structure Exit where
  code : ℕ
  stdout : Option Json
  stderr : Option Text

/-- `SystemExit(main())`.  The interpreter answers an exception with the status 1, and output that
it cannot flush with 120. -/
def status : Except Raised Exit → ℕ
  | .ok exit => if exit.stdout.all lib.flushes then exit.code else 120
  | .error _ => 1

def isTransient : Except Raised Json → Bool
  | .error (.watchdog (.transient _)) => true
  | _ => false

/-- The transient errors in a row just before request `k`. -/
def streak : ℕ → ℕ
  | 0 => 0
  | k + 1 => if isTransient (checkTask lib (out.reply k)) then streak k + 1 else 0

def deadline : ℚ := out.clock 0 + config.timeoutSeconds

/-- Round `k` is before the deadline, and its reply is a tolerated transient error or a state
that is not terminal.  Every round reads the clock twice. -/
structure Continues (k : ℕ) : Prop where
  early : out.clock (2 * k + 1) < deadline config out
  reply : (isTransient (checkTask lib (out.reply k)) = true ∧
      (streak lib out (k + 1) : ℤ) ≤ config.maxTransientErrors) ∨
    ∃ result, checkTask lib (out.reply k) = .ok result ∧ stateOf lib result ≠ [] ∧
      stateOf lib result ∉ terminalStates

/-- The state of the last response before request `k`. -/
def lastState : ℕ → Text
  | 0 => "unknown".toList
  | k + 1 =>
    match checkTask lib (out.reply k) with
    | .ok result => stateOf lib result
    | .error _ => lastState k

/-- What ends the wait in round `k`.  The clock comes before the reply. -/
inductive Verdict (k : ℕ) : Except Raised Json → Prop
  | late (h : deadline config out ≤ out.clock (2 * k + 1)) :
      Verdict k (.error (.watchdog (.timeout ("task ".toList ++ taskId ++
        " did not reach a terminal state within ".toList ++ lib.general config.timeoutSeconds ++
        "s; last state: ".toList ++ lastState lib out k))))
  | terminal {result : Json} (early : out.clock (2 * k + 1) < deadline config out)
      (reply : checkTask lib (out.reply k) = .ok result)
      (h : stateOf lib result ∈ terminalStates) : Verdict k (.ok result)
  | stateless {result : Json} (early : out.clock (2 * k + 1) < deadline config out)
      (reply : checkTask lib (out.reply k) = .ok result) (h : stateOf lib result = []) :
      Verdict k (.error (.watchdog (.api "bridge response is missing task state".toList)))
  | refused {raised : Raised} (early : out.clock (2 * k + 1) < deadline config out)
      (reply : checkTask lib (out.reply k) = .error raised)
      (h : isTransient (.error raised) = false) : Verdict k (.error raised)
  | exhausted {message : Text} (early : out.clock (2 * k + 1) < deadline config out)
      (reply : checkTask lib (out.reply k) = .error (.watchdog (.transient message)))
      (h : config.maxTransientErrors < streak lib out (k + 1)) :
      Verdict k (.error (.watchdog (.transient ("task ".toList ++ taskId ++ " exceeded ".toList ++
        (toString config.maxTransientErrors).toList ++ " consecutive transient errors: ".toList ++
        message))))

/-- The variables at the top of round `k`. -/
structure At (k : ℕ) (s : Wait) : Prop where
  deadline : s.deadline = deadline config out
  readings : s.readings = 2 * k + 1
  checks : s.checks = k
  transientErrors : s.transientErrors = streak lib out k
  lastState : s.lastState = lastState lib out k

theorem lastState_succ (k : ℕ) : lastState lib out (k + 1) =
    match checkTask lib (out.reply k) with
    | .ok result => stateOf lib result
    | .error _ => lastState lib out k :=
  rfl

theorem at_enter : At lib config out 0 (enter config out) := ⟨rfl, rfl, rfl, rfl, rfl⟩

variable {lib config out taskId} {k : ℕ} {s s' : Wait} {result : Json}

theorem At.next (h : At lib config out k s) (hd : s'.deadline = s.deadline)
    (hr : s'.readings = s.readings + 2) (hc : s'.checks = s.checks + 1)
    (ht : s'.transientErrors = streak lib out (k + 1))
    (hl : s'.lastState = Watchdog.lastState lib out (k + 1)) : At lib config out (k + 1) s' := by
  refine ⟨hd.trans h.deadline, ?_, by rw [hc, h.checks], ht, hl⟩
  rw [hr, h.readings]
  omega

theorem Continues.of_ok (h : Continues lib config out k)
    (hr : checkTask lib (out.reply k) = .ok result) :
    stateOf lib result ≠ [] ∧ stateOf lib result ∉ terminalStates := by
  rcases h.reply with ⟨ht, -⟩ | ⟨result', hr', hstate⟩
  · rw [hr] at ht
    cases ht
  · rw [hr] at hr'
    cases hr'
    exact hstate

theorem Continues.of_error {raised : Raised} (h : Continues lib config out k)
    (hr : checkTask lib (out.reply k) = .error raised) :
    isTransient (.error raised) = true ∧
      (streak lib out (k + 1) : ℤ) ≤ config.maxTransientErrors := by
  rcases h.reply with ht | ⟨result', hr', -⟩
  · rw [hr] at ht
    exact ht
  · rw [hr] at hr'
    cases hr'

/-- A round goes on, or it ends the wait with what the first of its checks to fail decides. -/
theorem iterate_spec (taskId : Text) (h : At lib config out k s) :
    (∃ s', iterate lib config out taskId s = .again s' ∧ Continues lib config out k ∧
      At lib config out (k + 1) s') ∨
    ∃ outcome, iterate lib config out taskId s = .ended outcome ∧
      Verdict lib config out taskId k outcome := by
  unfold iterate
  rw [h.deadline, h.readings, h.checks, h.lastState]
  by_cases hlate : deadline config out ≤ out.clock (2 * k + 1)
  · rw [if_pos hlate]
    exact Or.inr ⟨_, rfl, .late hlate⟩
  · have hearly : out.clock (2 * k + 1) < deadline config out := not_le.mp hlate
    rw [if_neg hlate]
    dsimp only
    cases hreply : checkTask lib (out.reply k) with
    | ok result =>
      by_cases hterm : stateOf lib result ∈ terminalStates
      · simp only [if_pos hterm]
        exact Or.inr ⟨_, rfl, .terminal hearly hreply hterm⟩
      · simp only [if_neg hterm]
        by_cases hempty : stateOf lib result = []
        · rw [if_pos hempty]
          exact Or.inr ⟨_, rfl, .stateless hearly hreply hempty⟩
        · rw [if_neg hempty]
          refine Or.inl ⟨_, rfl, ⟨hearly, Or.inr ⟨result, hreply, hempty, hterm⟩⟩, ?_⟩
          refine h.next h.deadline.symm (by rw [h.readings]; rfl) (by rw [h.checks]; rfl) ?_ ?_
          · simp only [streak, hreply, isTransient, Bool.false_eq_true, if_false,
              sleepUntilNextPoll]
          · rw [lastState_succ, hreply]
            rfl
    | error raised =>
      cases raised with
      | unicodeDecodeError | valueError | recursionError | osError | unicodeEncodeError =>
        exact Or.inr ⟨_, rfl, .refused hearly hreply rfl⟩
      | watchdog error =>
        cases error with
        | config message => exact Or.inr ⟨_, rfl, .refused hearly hreply rfl⟩
        | api message => exact Or.inr ⟨_, rfl, .refused hearly hreply rfl⟩
        | timeout message => exact Or.inr ⟨_, rfl, .refused hearly hreply rfl⟩
        | transient message =>
          have hstreak : streak lib out (k + 1) = s.transientErrors + 1 := by
            rw [h.transientErrors, streak, hreply]
            rfl
          simp only
          by_cases hmany : config.maxTransientErrors < (s.transientErrors + 1 : ℕ)
          · rw [if_pos hmany]
            exact Or.inr ⟨_, rfl, .exhausted hearly hreply (hstreak ▸ hmany)⟩
          · rw [if_neg hmany]
            refine Or.inl ⟨_, rfl, ⟨hearly, Or.inl ⟨by rw [hreply]; rfl, ?_⟩⟩, ?_⟩
            · rw [hstreak]
              omega
            · refine h.next h.deadline.symm (by rw [h.readings]; rfl) (by rw [h.checks]; rfl)
                hstreak.symm ?_
              rw [lastState_succ, hreply]
              rfl

theorem Continues.no_verdict {outcome : Except Raised Json} (h : Continues lib config out k) :
    ¬ Verdict lib config out taskId k outcome := by
  intro hv
  cases hv with
  | late hlate => exact absurd h.early (not_lt.mpr hlate)
  | terminal _ hr hterm => exact (h.of_ok hr).2 hterm
  | stateless _ hr hempty => exact (h.of_ok hr).1 hempty
  | refused _ hr hno =>
    have htrans := (h.of_error hr).1
    rw [hno] at htrans
    exact Bool.false_ne_true htrans
  | exhausted _ hr hmany => exact absurd (h.of_error hr).2 (not_le.mpr hmany)

theorem Verdict.unique {o o' : Except Raised Json} (h : Verdict lib config out taskId k o)
    (h' : Verdict lib config out taskId k o') : o = o' := by
  cases h with
  | late hlate =>
    cases h' with
    | late => rfl
    | terminal hearly | stateless hearly | refused hearly | exhausted hearly =>
      exact absurd hearly (not_lt.mpr hlate)
  | terminal hearly hr hterm =>
    cases h' with
    | late hlate => exact absurd hearly (not_lt.mpr hlate)
    | terminal _ hr' => exact congrArg Except.ok (Except.ok.inj (hr.symm.trans hr'))
    | stateless _ hr' hempty =>
      cases hr.symm.trans hr'
      rw [hempty] at hterm
      exact absurd hterm (by decide)
    | refused _ hr' | exhausted _ hr' => cases hr.symm.trans hr'
  | stateless hearly hr hempty =>
    cases h' with
    | late hlate => exact absurd hearly (not_lt.mpr hlate)
    | terminal _ hr' hterm =>
      cases hr.symm.trans hr'
      rw [hempty] at hterm
      exact absurd hterm (by decide)
    | stateless => rfl
    | refused _ hr' | exhausted _ hr' => cases hr.symm.trans hr'
  | refused hearly hr hno =>
    cases h' with
    | late hlate => exact absurd hearly (not_lt.mpr hlate)
    | terminal _ hr' | stateless _ hr' => cases hr.symm.trans hr'
    | refused _ hr' => exact congrArg Except.error (Except.error.inj (hr.symm.trans hr'))
    | exhausted _ hr' =>
      cases hr.symm.trans hr'
      cases hno
  | exhausted hearly hr hmany =>
    cases h' with
    | late hlate => exact absurd hearly (not_lt.mpr hlate)
    | terminal _ hr' | stateless _ hr' => cases hr.symm.trans hr'
    | refused _ hr' hno =>
      cases hr.symm.trans hr'
      cases hno
    | exhausted _ hr' =>
      cases hr.symm.trans hr'
      rfl

theorem loop_succ {fuel : ℕ} {outcome : Except Raised Json}
    (h : loop lib config out taskId fuel s = some outcome) :
    loop lib config out taskId (fuel + 1) s = some outcome := by
  induction fuel generalizing s with
  | zero => cases h
  | succ fuel ih =>
    unfold loop at h ⊢
    split
    · next hi =>
      rw [hi] at h
      exact h
    · next hi =>
      rw [hi] at h
      exact ih h

theorem loop_mono {m n : ℕ} (hmn : m ≤ n) {outcome : Except Raised Json}
    (h : loop lib config out taskId m s = some outcome) :
    loop lib config out taskId n s = some outcome := by
  induction n, hmn using Nat.le_induction with
  | base => exact h
  | succ n _ ih => exact loop_succ ih

theorem Ends.unique {o o' : Except Raised Json} (h : Ends lib config out taskId o)
    (h' : Ends lib config out taskId o') : o = o' := by
  obtain ⟨m, hm⟩ := h
  obtain ⟨n, hn⟩ := h'
  have h1 := loop_mono (le_max_left m n) hm
  have h2 := loop_mono (le_max_right m n) hn
  rw [h1] at h2
  exact Option.some.inj h2

/-- The loop has an outcome if and only if that is the verdict of the first round that does not
go on, and the fuel lasts for it. -/
theorem loop_eq_some_iff {fuel : ℕ} {outcome : Except Raised Json} (h : At lib config out k s)
    (hbefore : ∀ j < k, Continues lib config out j) :
    loop lib config out taskId fuel s = some outcome ↔
      ∃ m < k + fuel, (∀ j < m, Continues lib config out j) ∧
        Verdict lib config out taskId m outcome := by
  induction fuel generalizing k s with
  | zero =>
    constructor
    · nofun
    · rintro ⟨m, hm, -, hv⟩
      exact absurd hv (hbefore m hm).no_verdict
  | succ fuel ih =>
    unfold loop
    rcases iterate_spec taskId h with ⟨s', hi, hk, hs'⟩ | ⟨outcome', hi, hv⟩
    · have hbefore' : ∀ j < k + 1, Continues lib config out j := by
        intro j hj
        rcases Nat.lt_succ_iff_lt_or_eq.mp hj with hj | rfl
        · exact hbefore j hj
        · exact hk
      simp only [hi]
      rw [ih hs' hbefore', Nat.add_right_comm, Nat.add_assoc]
    · simp only [hi, Option.some.injEq]
      constructor
      · rintro rfl
        exact ⟨k, by omega, hbefore, hv⟩
      · rintro ⟨m, -, hm, hv'⟩
        -- Only round `k` can be the first that does not go on.
        rcases Nat.lt_trichotomy m k with hlt | rfl | hgt
        · exact absurd hv' (hbefore m hlt).no_verdict
        · exact hv.unique hv'
        · exact absurd hv (hm k hgt).no_verdict

theorem waitForTask_eq_some_iff {fuel : ℕ} {outcome : Except Raised Json} :
    waitForTask lib config out taskId fuel = some outcome ↔
      ∃ k < fuel, (∀ j < k, Continues lib config out j) ∧
        Verdict lib config out taskId k outcome := by
  unfold waitForTask
  rw [loop_eq_some_iff (at_enter lib config out) (fun j hj => absurd hj (Nat.not_lt_zero j)),
    Nat.zero_add]

theorem ends_iff {outcome : Except Raised Json} : Ends lib config out taskId outcome ↔
    ∃ k, (∀ j < k, Continues lib config out j) ∧ Verdict lib config out taskId k outcome := by
  constructor
  · rintro ⟨fuel, hfuel⟩
    obtain ⟨k, -, hbefore, hv⟩ := waitForTask_eq_some_iff.mp hfuel
    exact ⟨k, hbefore, hv⟩
  · rintro ⟨k, hbefore, hv⟩
    exact ⟨k + 1, waitForTask_eq_some_iff.mpr ⟨k, by omega, hbefore, hv⟩⟩

variable (lib config out taskId)

namespace Sample

def body : Text := "\x7b\"state\": \"Failed\"\x7d".toList

def library : Library where
  decode bytes := some (bytes.map fun b => Char.ofNat b.toNat)
  loads raw :=
    if raw = body then .ok (.obj [("state".toList, .str "Failed".toList)])
    else .error .jsonDecodeError
  repr _ := []
  general _ := []
  print _ := .ok ()
  flushes _ := true

def settings : WatchdogConfig := ⟨2, 1800, 5⟩

end Sample

end WorkerBridge.Watchdog
