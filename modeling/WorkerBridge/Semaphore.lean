import Mathlib.Data.List.Basic
import Mathlib.Data.List.Pairwise

/-!
# A fair counting semaphore

The semaphore of a cooperative event loop, as `asyncio` implements it.  A waiter
holds a ticket for a future; a release takes the slot at once for the first
pending future, and the waiter has it when it runs again, unless it has been
cancelled in the meantime and gives the slot back.
-/

inductive Future
  | pending | granted | cancelled
  deriving DecidableEq, Repr

structure FifoSemaphore where
  value : ℕ
  waiters : List (ℕ × Future)
  tickets : ℕ
  ordered : waiters.Pairwise fun a b => a.1 < b.1
  below : ∀ w ∈ waiters, w.1 < tickets

namespace FifoSemaphore

def new (value : ℕ) : FifoSemaphore := ⟨value, [], 0, List.Pairwise.nil, fun _ h => by cases h⟩

/-- Whether `acquire` has to wait.  It does when another waits, even with a slot free. -/
def locked (s : FifoSemaphore) : Bool :=
  decide (s.value = 0) || s.waiters.any fun w => decide (w.2 ≠ .cancelled)

/-- An `acquire` that does not wait. -/
def take (s : FifoSemaphore) : FifoSemaphore := { s with value := s.value - 1 }

/-- An `acquire` that waits, with the ticket `tickets`. -/
def enqueue (s : FifoSemaphore) : FifoSemaphore where
  value := s.value
  waiters := s.waiters ++ [(s.tickets, .pending)]
  tickets := s.tickets + 1
  ordered := by
    refine List.pairwise_append.mpr ⟨s.ordered, List.pairwise_singleton _ _, ?_⟩
    intro a ha b hb
    rw [List.mem_singleton] at hb
    exact hb ▸ s.below a ha
  below := by
    intro w hw
    rcases List.mem_append.mp hw with hw | hw
    · exact Nat.lt_succ_of_lt (s.below w hw)
    · rw [List.mem_singleton] at hw
      exact hw ▸ Nat.lt_succ_self _

def future (s : FifoSemaphore) (ticket : ℕ) : Option Future :=
  (s.waiters.find? fun w => decide (w.1 = ticket)).map Prod.snd

/-- `set_result` on the first pending future. -/
def grantFirst : List (ℕ × Future) → Option (List (ℕ × Future))
  | [] => none
  | (ticket, .pending) :: rest => some ((ticket, .granted) :: rest)
  | w :: rest => (grantFirst rest).map (w :: ·)

/-- `_wake_up_next`, as long as there is a slot and a pending future. -/
def wakeAll : ℕ → List (ℕ × Future) → ℕ × List (ℕ × Future)
  | 0, waiters => (0, waiters)
  | value + 1, waiters =>
    match grantFirst waiters with
    | some waiters => wakeAll value waiters
    | none => (value + 1, waiters)

theorem grantFirst_eq_some {ws ws' : List (ℕ × Future)} (h : grantFirst ws = some ws') :
    ∃ before ticket rest, ws = before ++ (ticket, .pending) :: rest ∧
      ws' = before ++ (ticket, .granted) :: rest ∧ ∀ w ∈ before, w.2 ≠ .pending := by
  induction ws generalizing ws' with
  | nil => cases h
  | cons w rest ih =>
    obtain ⟨ticket, future⟩ := w
    cases future with
    | pending =>
      cases h
      exact ⟨[], ticket, rest, rfl, rfl, List.forall_mem_nil _⟩
    | granted | cancelled =>
      obtain ⟨us, hus, rfl⟩ := Option.map_eq_some_iff.mp h
      obtain ⟨before, t, tail, rfl, rfl, hbefore⟩ := ih hus
      exact ⟨_ :: before, t, tail, rfl, rfl, List.forall_mem_cons.mpr ⟨nofun, hbefore⟩⟩

theorem map_fst_grantFirst {ws ws' : List (ℕ × Future)} (h : grantFirst ws = some ws') :
    ws'.map Prod.fst = ws.map Prod.fst := by
  obtain ⟨before, ticket, rest, rfl, rfl, -⟩ := grantFirst_eq_some h
  simp only [List.map_append, List.map_cons]

theorem map_fst_wakeAll (value : ℕ) (ws : List (ℕ × Future)) :
    (wakeAll value ws).2.map Prod.fst = ws.map Prod.fst := by
  induction value generalizing ws with
  | zero => rfl
  | succ value ih =>
    unfold wakeAll
    split
    · next us hus => rw [ih, map_fst_grantFirst hus]
    · rfl

/-- Put other waiters with the same tickets in the queue. -/
def withWaiters (s : FifoSemaphore) (value : ℕ) (waiters : List (ℕ × Future))
    (h : (waiters.map Prod.fst).Sublist (s.waiters.map Prod.fst)) : FifoSemaphore where
  value := value
  waiters := waiters
  tickets := s.tickets
  ordered := by
    have hs : (s.waiters.map Prod.fst).Pairwise (· < ·) := List.pairwise_map.mpr s.ordered
    exact List.pairwise_map.mp (hs.sublist h)
  below := by
    intro w hw
    obtain ⟨v, hv, he⟩ := List.mem_map.mp (h.subset (List.mem_map_of_mem hw))
    exact he ▸ s.below v hv

/-- The loop at the end of a waiting `acquire`. -/
def wakeUp (s : FifoSemaphore) : FifoSemaphore :=
  s.withWaiters (wakeAll s.value s.waiters).1 (wakeAll s.value s.waiters).2
    (by rw [map_fst_wakeAll])

def release (s : FifoSemaphore) : FifoSemaphore :=
  -- A slot that is passed on never shows in `value`.
  match h : grantFirst s.waiters with
  | some waiters => s.withWaiters s.value waiters (by rw [map_fst_grantFirst h])
  | none => { s with value := s.value + 1 }

/-- `cancel` on the future of a ticket, which does nothing to one that is done. -/
def cancelFuture (s : FifoSemaphore) (ticket : ℕ) : FifoSemaphore :=
  s.withWaiters s.value
    (s.waiters.map fun w => if w = (ticket, .pending) then (ticket, .cancelled) else w) (by
      rw [List.map_map]
      refine (List.map_congr_left ?_).symm ▸ List.Sublist.refl _
      intro w _
      simp only [Function.comp]
      split
      · next h => rw [h]
      · rfl)

def remove (s : FifoSemaphore) (ticket : ℕ) : FifoSemaphore :=
  s.withWaiters s.value (s.waiters.filter fun w => decide (w.1 ≠ ticket))
    (List.filter_sublist.map _)

def resume (s : FifoSemaphore) (ticket : ℕ) : FifoSemaphore := (s.remove ticket).wakeUp

/-- `CancelledError` is thrown into a waiter, which returns a slot it was granted. -/
def abandon (s : FifoSemaphore) (ticket : ℕ) : FifoSemaphore :=
  if s.future ticket = some .granted then
    ({ s.remove ticket with value := s.value + 1 } : FifoSemaphore).wakeUp
  else (s.remove ticket).wakeUp

def isGranted (w : ℕ × Future) : Bool := decide (w.2 = .granted)

/-- The slots nobody holds: free ones, and those granted to a waiter that has
not run again. -/
def free (s : FifoSemaphore) : ℕ := s.value + s.waiters.countP isGranted

variable {s : FifoSemaphore} {ticket : ℕ}

@[simp] theorem free_new (value : ℕ) : (new value).free = value := rfl

theorem free_take (h : s.locked = false) : s.take.free + 1 = s.free := by
  unfold locked at h
  rw [Bool.or_eq_false_iff, decide_eq_false_iff_not] at h
  unfold take free
  simp only
  omega

@[simp] theorem free_enqueue : s.enqueue.free = s.free := by
  unfold enqueue free
  rw [List.countP_append]
  rfl

theorem countP_grantFirst {ws ws' : List (ℕ × Future)} (h : grantFirst ws = some ws') :
    ws'.countP isGranted = ws.countP isGranted + 1 := by
  obtain ⟨before, ticket, rest, rfl, rfl, -⟩ := grantFirst_eq_some h
  have pending : isGranted (ticket, .pending) = false := rfl
  have granted : isGranted (ticket, .granted) = true := rfl
  rw [List.countP_append, List.countP_append, List.countP_cons_of_pos granted,
    List.countP_cons_of_neg (by simp [pending])]
  omega

theorem countP_wakeAll (value : ℕ) (ws : List (ℕ × Future)) :
    (wakeAll value ws).1 + (wakeAll value ws).2.countP isGranted = value + ws.countP isGranted := by
  induction value generalizing ws with
  | zero => rfl
  | succ value ih =>
    unfold wakeAll
    split
    · next us hus =>
      rw [ih, countP_grantFirst hus]
      omega
    · rfl

@[simp] theorem free_wakeUp : s.wakeUp.free = s.free := countP_wakeAll s.value s.waiters

@[simp] theorem free_release : s.release.free = s.free + 1 := by
  unfold release
  split
  · next us hus =>
    unfold withWaiters free
    simp only
    rw [countP_grantFirst hus]
    omega
  · unfold free
    simp only
    omega

@[simp] theorem free_cancelFuture : (s.cancelFuture ticket).free = s.free := by
  unfold cancelFuture withWaiters free
  simp only [List.countP_map]
  congr 1
  apply List.countP_congr
  intro w _
  simp only [Function.comp]
  split
  · next h =>
    subst h
    simp [isGranted]
  · rfl

theorem countP_filter_ne (ticket : ℕ) {ws : List (ℕ × Future)} (h : ws.Pairwise fun a b => a.1 < b.1) :
    (ws.filter fun w => decide (w.1 ≠ ticket)).countP isGranted +
      (if (ws.find? fun w => decide (w.1 = ticket)).map Prod.snd = some .granted then 1 else 0) =
      ws.countP isGranted := by
  induction ws with
  | nil => rfl
  | cons w rest ih =>
    obtain ⟨hw, hrest⟩ := List.pairwise_cons.mp h
    by_cases he : w.1 = ticket
    · have hkeep : (rest.filter fun v => decide (v.1 ≠ ticket)) = rest := by
        apply List.filter_eq_self.mpr
        intro v hv
        have hlt := hw v hv
        exact decide_eq_true (by omega)
      rw [List.filter_cons_of_neg (by simpa using he), List.find?_cons_of_pos (by simpa using he),
        hkeep, List.countP_cons]
      unfold isGranted
      simp
    · rw [List.filter_cons_of_pos (by simpa using he), List.find?_cons_of_neg (by simpa using he),
        List.countP_cons, List.countP_cons]
      have := ih hrest
      omega

theorem free_resume (h : s.future ticket = some .granted) :
    (s.resume ticket).free + 1 = s.free := by
  have hcount := countP_filter_ne ticket s.ordered
  unfold future at h
  rw [if_pos h] at hcount
  unfold resume
  rw [free_wakeUp]
  unfold remove withWaiters free
  simp only
  omega

@[simp] theorem free_abandon : (s.abandon ticket).free = s.free := by
  have hcount := countP_filter_ne ticket s.ordered
  unfold abandon future
  split
  · next h =>
    rw [if_pos h] at hcount
    rw [free_wakeUp]
    unfold remove withWaiters free
    simp only
    omega
  · next h =>
    rw [if_neg h] at hcount
    rw [free_wakeUp]
    unfold remove withWaiters free
    simp only
    omega

end FifoSemaphore
