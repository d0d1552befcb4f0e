import Mathlib.Logic.Function.Basic
import WorkerBridge.Semaphore
import WorkerBridge.Table

namespace FifoSemaphore

/-- The tickets are the first parts, in the order they were drawn. -/
structure Fair (waiters : List (ℕ × Future)) (value : ℕ) : Prop where
  woken : ∀ w ∈ waiters, w.2 = .pending → value = 0 ∨ ∃ v ∈ waiters, v.2 = .granted
  inTurn : waiters.Pairwise fun a b => a.2 = .pending → b.2 ≠ .granted

/-- Of a ticket with the future `f` the semaphore now says `f'`, when all it did
was to grant slots. -/
def Grants (f f' : Option Future) : Prop := f' = f ∨ (f = some .pending ∧ f' = some .granted)

theorem Grants.refl (f : Option Future) : Grants f f := Or.inl rfl

theorem Grants.trans {f f' f'' : Option Future} (h : Grants f f') (h' : Grants f' f'') :
    Grants f f'' := by
  rcases h' with rfl | ⟨rfl, rfl⟩
  · exact h
  · rcases h with h | ⟨-, h⟩
    · exact Or.inr ⟨h.symm, rfl⟩
    · cases h

theorem Grants.eq_none {f : Option Future} (h : Grants none f) : f = none := by
  rcases h with h | ⟨h, -⟩
  · exact h
  · cases h

variable {ws ws' : List (ℕ × Future)} {value ticket : ℕ}

def futureIn (ws : List (ℕ × Future)) (ticket : ℕ) : Option Future :=
  (ws.find? fun w => decide (w.1 = ticket)).map Prod.snd

theorem grantFirst_eq_none (h : grantFirst ws = none) : ∀ w ∈ ws, w.2 ≠ .pending := by
  induction ws with
  | nil => exact List.forall_mem_nil _
  | cons w rest ih =>
    obtain ⟨ticket, future⟩ := w
    cases future with
    | pending => cases h
    | granted | cancelled =>
      exact List.forall_mem_cons.mpr ⟨nofun, ih (Option.map_eq_none_iff.mp h)⟩

theorem futureIn_append (l l' : List (ℕ × Future)) (ticket : ℕ) :
    futureIn (l ++ l') ticket = (futureIn l ticket).or (futureIn l' ticket) := by
  unfold futureIn
  rw [List.find?_append, Option.map_or]

theorem futureIn_cons (w : ℕ × Future) (l : List (ℕ × Future)) (ticket : ℕ) :
    futureIn (w :: l) ticket = if w.1 = ticket then some w.2 else futureIn l ticket := by
  unfold futureIn
  rw [List.find?_cons]
  by_cases h : w.1 = ticket <;> simp [h]

theorem grants_grantFirst (h : grantFirst ws = some ws') (ticket : ℕ) :
    Grants (futureIn ws ticket) (futureIn ws' ticket) := by
  obtain ⟨before, t, rest, rfl, rfl, -⟩ := grantFirst_eq_some h
  rw [futureIn_append, futureIn_append, futureIn_cons, futureIn_cons]
  cases futureIn before ticket with
  | some f => exact .refl _
  | none =>
    split
    · exact Or.inr ⟨rfl, rfl⟩
    · exact .refl _

theorem inTurn_grantFirst (h : grantFirst ws = some ws')
    (hturn : ws.Pairwise fun a b => a.2 = .pending → b.2 ≠ .granted) :
    ws'.Pairwise fun a b => a.2 = .pending → b.2 ≠ .granted := by
  obtain ⟨before, t, rest, rfl, rfl, hbefore⟩ := grantFirst_eq_some h
  rw [List.pairwise_append, List.pairwise_cons] at hturn ⊢
  obtain ⟨hfirst, ⟨-, hrest⟩, -⟩ := hturn
  refine ⟨hfirst, ⟨fun _ _ => nofun, hrest⟩, ?_⟩
  intro a ha b _ hpending
  exact absurd hpending (hbefore a ha)

theorem grants_wakeAll (value : ℕ) (ws : List (ℕ × Future)) (ticket : ℕ) :
    Grants (futureIn ws ticket) (futureIn (wakeAll value ws).2 ticket) := by
  induction value generalizing ws with
  | zero => exact .refl _
  | succ value ih =>
    unfold wakeAll
    split
    · next us hus => exact (grants_grantFirst hus ticket).trans (ih us)
    · exact .refl _

theorem inTurn_wakeAll (value : ℕ) (hturn : ws.Pairwise fun a b => a.2 = .pending → b.2 ≠ .granted) :
    (wakeAll value ws).2.Pairwise fun a b => a.2 = .pending → b.2 ≠ .granted := by
  induction value generalizing ws with
  | zero => exact hturn
  | succ value ih =>
    unfold wakeAll
    split
    · next us hus => exact ih (inTurn_grantFirst hus hturn)
    · exact hturn

/-- The loop stops with no slot or no pending future left. -/
theorem woken_wakeAll (value : ℕ) (ws : List (ℕ × Future)) :
    (wakeAll value ws).1 = 0 ∨ ∀ w ∈ (wakeAll value ws).2, w.2 ≠ .pending := by
  induction value generalizing ws with
  | zero => exact Or.inl rfl
  | succ value ih =>
    unfold wakeAll
    split
    · next us hus => exact ih us
    · next hnone => exact Or.inr (grantFirst_eq_none hnone)

theorem fair_wakeAll (value : ℕ) (hturn : ws.Pairwise fun a b => a.2 = .pending → b.2 ≠ .granted) :
    Fair (wakeAll value ws).2 (wakeAll value ws).1 := by
  refine ⟨?_, inTurn_wakeAll value hturn⟩
  intro w hw hpending
  rcases woken_wakeAll value ws with hzero | hnone
  · exact Or.inl hzero
  · exact absurd hpending (hnone w hw)

variable {s : FifoSemaphore}

theorem future_eq (s : FifoSemaphore) (ticket : ℕ) : s.future ticket = futureIn s.waiters ticket := rfl

theorem not_pending_of_free (h : s.locked = false) : ∀ w ∈ s.waiters, w.2 ≠ .pending := by
  unfold locked at h
  intro w hw hpending
  have hany := List.any_eq_false.mp (Bool.or_eq_false_iff.mp h).2 w hw
  rw [hpending] at hany
  exact hany rfl

theorem fair_new (value : ℕ) : Fair (new value).waiters (new value).value :=
  ⟨List.forall_mem_nil _, List.Pairwise.nil⟩

theorem fair_take (h : s.locked = false) (hf : Fair s.waiters s.value) :
    Fair s.take.waiters s.take.value :=
  ⟨fun w hw hpending => absurd hpending (not_pending_of_free h w hw), hf.inTurn⟩

theorem fair_enqueue (h : s.locked = true) (hf : Fair s.waiters s.value) :
    Fair s.enqueue.waiters s.enqueue.value := by
  have hwoken : s.value = 0 ∨ ∃ v ∈ s.waiters, v.2 = .granted := by
    unfold locked at h
    rw [Bool.or_eq_true, decide_eq_true_iff] at h
    refine h.elim Or.inl fun hany => ?_
    obtain ⟨v, hv, hne⟩ := List.any_eq_true.mp hany
    rw [decide_eq_true_iff] at hne
    cases hfuture : v.2 with
    | pending => exact hf.woken v hv hfuture
    | granted => exact Or.inr ⟨v, hv, hfuture⟩
    | cancelled => exact absurd hfuture hne
  refine ⟨?_, ?_⟩
  · intro w _ _
    exact hwoken.imp_right fun ⟨v, hv, hg⟩ => ⟨v, List.mem_append_left _ hv, hg⟩
  · refine List.pairwise_append.mpr ⟨hf.inTurn, List.pairwise_singleton _ _, ?_⟩
    intro a _ b hb _
    rw [List.mem_singleton] at hb
    rw [hb]
    nofun

theorem future_enqueue (ticket : ℕ) : s.enqueue.future ticket =
    (s.future ticket).or (if s.tickets = ticket then some .pending else none) := by
  rw [future_eq, future_eq]
  unfold enqueue
  simp only [futureIn_append, futureIn_cons]
  rfl

theorem mem_of_future {ticket : ℕ} {f : Future} (h : s.future ticket = some f) :
    (ticket, f) ∈ s.waiters := by
  obtain ⟨w, hw, rfl⟩ := Option.map_eq_some_iff.mp h
  have ht : w.1 = ticket := by simpa using List.find?_some hw
  rw [← ht]
  exact List.mem_of_find?_eq_some hw

theorem future_of_mem {w : ℕ × Future} (h : w ∈ s.waiters) : s.future w.1 = some w.2 := by
  have hdistinct : Table.Distinct Prod.fst s.waiters := s.ordered.imp fun hlt => Nat.ne_of_lt hlt
  have hfind := Table.find_of_mem hdistinct h
  unfold Table.find at hfind
  unfold future
  rw [hfind]
  rfl

theorem lt_tickets {ticket : ℕ} {f : Future} (h : s.future ticket = some f) : ticket < s.tickets :=
  s.below _ (mem_of_future h)

theorem future_tickets (s : FifoSemaphore) : s.future s.tickets = none := by
  cases h : s.future s.tickets with
  | none => rfl
  | some f => exact absurd (lt_tickets h) (Nat.lt_irrefl _)

theorem lt_of_granted {t t' : ℕ} (hf : Fair s.waiters s.value) (h : s.future t = some .pending)
    (h' : s.future t' = some .granted) : t' < t := by
  obtain ⟨i, hi⟩ := List.getElem?_of_mem (mem_of_future h)
  obtain ⟨k, hk⟩ := List.getElem?_of_mem (mem_of_future h')
  obtain ⟨hi, hwi⟩ := List.getElem?_eq_some_iff.mp hi
  obtain ⟨hk, hwk⟩ := List.getElem?_eq_some_iff.mp hk
  rcases Nat.lt_trichotomy i k with hlt | heq | hlt
  · have := List.pairwise_iff_getElem.mp hf.inTurn i k hi hk hlt
    rw [hwi, hwk] at this
    exact absurd rfl (this rfl)
  · subst heq
    rw [hwi] at hwk
    cases hwk
  · have := List.pairwise_iff_getElem.mp s.ordered k i hk hi hlt
    rwa [hwi, hwk] at this

theorem fair_release (hf : Fair s.waiters s.value) : Fair s.release.waiters s.release.value := by
  unfold release
  split
  · next us hus =>
    refine ⟨fun _ _ _ => Or.inr ?_, inTurn_grantFirst hus hf.inTurn⟩
    obtain ⟨before, t, rest, -, rfl, -⟩ := grantFirst_eq_some hus
    exact ⟨(t, .granted), by simp [withWaiters], rfl⟩
  · next hnone =>
    refine ⟨?_, hf.inTurn⟩
    intro w hw hpending
    exact absurd hpending (grantFirst_eq_none hnone w hw)

theorem grants_release (s : FifoSemaphore) (ticket : ℕ) :
    Grants (s.future ticket) (s.release.future ticket) := by
  unfold release
  split
  · next us hus => exact grants_grantFirst hus ticket
  · exact .refl _

theorem inTurn_remove (hf : Fair s.waiters s.value) (ticket : ℕ) :
    (s.remove ticket).waiters.Pairwise fun a b => a.2 = .pending → b.2 ≠ .granted :=
  hf.inTurn.sublist List.filter_sublist

theorem future_remove (s : FifoSemaphore) (ticket t : ℕ) :
    (s.remove ticket).future t = if t = ticket then none else s.future t := by
  unfold remove withWaiters future
  simp only [List.find?_filter, Bool.decide_and, Bool.decide_eq_true]
  by_cases h : t = ticket
  · have hnone : (s.waiters.find? fun w => decide (w.1 ≠ ticket) && decide (w.1 = t)) = none := by
      rw [List.find?_eq_none]
      intro w _
      simp [h]
    rw [if_pos h, hnone, Option.map_none]
  · have hsame : (fun w : ℕ × Future => decide (w.1 ≠ ticket) && decide (w.1 = t)) =
        fun w => decide (w.1 = t) := by
      funext w
      by_cases he : w.1 = t <;> simp [he, h]
    rw [if_neg h, hsame]

theorem fair_resume (hf : Fair s.waiters s.value) (ticket : ℕ) :
    Fair (s.resume ticket).waiters (s.resume ticket).value :=
  fair_wakeAll _ (inTurn_remove hf ticket)

theorem grants_resume (s : FifoSemaphore) (ticket t : ℕ) :
    Grants (if t = ticket then none else s.future t) ((s.resume ticket).future t) := by
  rw [← future_remove]
  exact grants_wakeAll _ _ t

theorem future_resume (s : FifoSemaphore) (ticket : ℕ) : (s.resume ticket).future ticket = none := by
  have := grants_resume s ticket ticket
  rw [if_pos rfl] at this
  exact this.eq_none

theorem fair_abandon (hf : Fair s.waiters s.value) (ticket : ℕ) :
    Fair (s.abandon ticket).waiters (s.abandon ticket).value := by
  unfold abandon
  split
  · exact fair_wakeAll _ (inTurn_remove hf ticket)
  · exact fair_wakeAll _ (inTurn_remove hf ticket)

theorem grants_abandon (s : FifoSemaphore) (ticket t : ℕ) :
    Grants (if t = ticket then none else s.future t) ((s.abandon ticket).future t) := by
  rw [← future_remove]
  unfold abandon
  split
  · exact grants_wakeAll _ _ t
  · exact grants_wakeAll _ _ t

theorem future_abandon (s : FifoSemaphore) (ticket : ℕ) :
    (s.abandon ticket).future ticket = none := by
  have := grants_abandon s ticket ticket
  rw [if_pos rfl] at this
  exact this.eq_none

/-- The future of a waiter that is cancelled while it is pending. -/
def Future.cancel : Future → Future
  | .pending => .cancelled
  | .granted => .granted
  | .cancelled => .cancelled

theorem fair_cancelFuture (hf : Fair s.waiters s.value) (ticket : ℕ) :
    Fair (s.cancelFuture ticket).waiters (s.cancelFuture ticket).value := by
  have hkeep : ∀ w : ℕ × Future, (if w = (ticket, .pending) then (ticket, .cancelled) else w).2 =
      .granted ↔ w.2 = .granted := by
    intro w
    split
    · next h => simp [h]
    · rfl
  have hpend : ∀ w : ℕ × Future, (if w = (ticket, .pending) then (ticket, .cancelled) else w).2 =
      .pending → w.2 = .pending := by
    intro w h
    split at h
    · cases h
    · exact h
  refine ⟨?_, ?_⟩
  · intro w hw hpending
    obtain ⟨v, hv, rfl⟩ := List.mem_map.mp hw
    refine (hf.woken v hv (hpend v hpending)).imp_right fun ⟨u, hu, hg⟩ => ?_
    exact ⟨_, List.mem_map_of_mem hu, (hkeep u).mpr hg⟩
  · refine List.pairwise_map.mpr (hf.inTurn.imp fun {a b} hab hpending => ?_)
    rw [ne_eq, hkeep]
    exact hab (hpend a hpending)

theorem future_cancelFuture (s : FifoSemaphore) (ticket t : ℕ) : (s.cancelFuture ticket).future t =
    if t = ticket then (s.future t).map Future.cancel else s.future t := by
  unfold cancelFuture withWaiters future
  simp only [List.find?_map]
  have hkey : ((fun w : ℕ × Future => decide (w.1 = t)) ∘ fun w =>
      if w = (ticket, .pending) then (ticket, .cancelled) else w) = fun w => decide (w.1 = t) := by
    funext w
    simp only [Function.comp]
    split
    · next h => rw [h]
    · rfl
  rw [hkey]
  cases hfind : s.waiters.find? fun w => decide (w.1 = t) with
  | none => simp
  | some w =>
    have hw : w.1 = t := by simpa using List.find?_some hfind
    obtain ⟨k, future⟩ := w
    simp only at hw
    subst hw
    by_cases h : k = ticket
    · subst h
      cases future <;> simp [Future.cancel]
    · simp [h]

/-- The futures in the queue are those of the clients, who came in the order of their tickets.
Each client has its ticket and whether it has been cancelled. -/
structure Serves (s : FifoSemaphore) (clients : ℕ → Option (ℕ × Bool)) : Prop where
  fair : Fair s.waiters s.value
  waits : ∀ j t asked, clients j = some (t, asked) →
    ∃ f, s.future t = some f ∧ (f = .cancelled → asked = true)
  owned : ∀ t f, s.future t = some f → ∃ j asked, clients j = some (t, asked)
  ordered : ∀ j k t t' asked asked', clients j = some (t, asked) → clients k = some (t', asked') →
    j < k → t < t'

def clientsOf {β : Type*} (ticket : β → Option (ℕ × Bool)) (l : List β) (j : ℕ) :
    Option (ℕ × Bool) :=
  l[j]?.bind ticket

section ClientsOf

variable {β : Type*} {ticket : β → Option (ℕ × Bool)} {l : List β} {j : ℕ} {b b' : β}

theorem clientsOf_eq (h : l[j]? = some b) : clientsOf ticket l j = ticket b := by
  unfold clientsOf
  rw [h, Option.bind_some]

theorem clientsOf_lt {x : ℕ × Bool} (h : clientsOf ticket l j = some x) : j < l.length := by
  obtain ⟨b, hb, -⟩ := Option.bind_eq_some_iff.mp h
  exact (List.getElem?_eq_some_iff.mp hb).1

theorem clientsOf_set (h : l[j]? = some b) :
    clientsOf ticket (l.set j b') = Function.update (clientsOf ticket l) j (ticket b') := by
  funext k
  unfold clientsOf
  by_cases he : k = j
  · subst he
    rw [List.getElem?_set_self (List.getElem?_eq_some_iff.mp h).1, Function.update_self,
      Option.bind_some]
  · rw [List.getElem?_set_ne (Ne.symm he), Function.update_of_ne he]

theorem clientsOf_same (h : l[j]? = some b) (hticket : ticket b' = ticket b) :
    clientsOf ticket (l.set j b') = clientsOf ticket l := by
  have hself : clientsOf ticket l j = ticket b := clientsOf_eq h
  rw [clientsOf_set h, hticket, ← hself, Function.update_eq_self]

theorem clientsOf_append (b : β) : clientsOf ticket (l ++ [b]) =
    Function.update (clientsOf ticket l) l.length (ticket b) := by
  funext k
  unfold clientsOf
  rcases Nat.lt_trichotomy k l.length with hk | rfl | hk
  · rw [List.getElem?_append_left hk, Function.update_of_ne (Nat.ne_of_lt hk)]
  · rw [List.getElem?_concat_length, Function.update_self, Option.bind_some]
  · rw [Function.update_of_ne (Nat.ne_of_gt hk), List.getElem?_eq_none (by simp; omega),
      List.getElem?_eq_none (Nat.le_of_lt hk)]

theorem clientsOf_append_none (h : ticket b = none) :
    clientsOf ticket (l ++ [b]) = clientsOf ticket l := by
  have hnone : clientsOf ticket l l.length = none := by
    unfold clientsOf
    rw [List.getElem?_eq_none (Nat.le_refl _), Option.bind_none]
  rw [clientsOf_append, h, ← hnone, Function.update_eq_self]

end ClientsOf

namespace Serves

variable {s' : FifoSemaphore} {clients : ℕ → Option (ℕ × Bool)} {j n t : ℕ} {asked : Bool}

theorem new (value : ℕ) : Serves (FifoSemaphore.new value) fun _ => none :=
  ⟨fair_new value, nofun, nofun, nofun⟩

theorem once (h : Serves s clients) {k : ℕ} {asked' : Bool} (hj : clients j = some (t, asked))
    (hk : clients k = some (t, asked')) : j = k := by
  rcases Nat.lt_trichotomy j k with hlt | heq | hlt
  · exact absurd (h.ordered j k t t _ _ hj hk hlt) (Nat.lt_irrefl _)
  · exact heq
  · exact absurd (h.ordered k j t t _ _ hk hj hlt) (Nat.lt_irrefl _)

theorem grants (h : Serves s clients) (hfair : Fair s'.waiters s'.value)
    (hgrants : ∀ t, Grants (s.future t) (s'.future t)) : Serves s' clients := by
  refine ⟨hfair, ?_, ?_, h.ordered⟩
  · intro j t asked hj
    obtain ⟨f, hf, hreq⟩ := h.waits j t asked hj
    rcases hgrants t with he | ⟨-, he⟩
    · exact ⟨f, he.trans hf, hreq⟩
    · exact ⟨.granted, he, nofun⟩
  · intro t f hf
    rcases hgrants t with he | ⟨he, -⟩
    · exact h.owned t f (he.symm.trans hf)
    · exact h.owned t _ he

theorem take (h : Serves s clients) (hfree : s.locked = false) : Serves s.take clients :=
  h.grants (fair_take hfree h.fair) fun _ => .refl _

theorem release (h : Serves s clients) : Serves s.release clients :=
  h.grants (fair_release h.fair) (grants_release s)

theorem enqueue (h : Serves s clients) (hlocked : s.locked = true)
    (hlast : ∀ j x, clients j = some x → j < n) :
    Serves s.enqueue (Function.update clients n (some (s.tickets, false))) := by
  have hcases : ∀ {j t asked}, Function.update clients n (some (s.tickets, false)) j = some (t, asked) →
      (j = n ∧ t = s.tickets) ∨ clients j = some (t, asked) := by
    intro j t asked hj
    by_cases he : j = n
    · subst he
      rw [Function.update_self] at hj
      exact Or.inl ⟨rfl, (Prod.mk.inj (Option.some.inj hj)).1.symm⟩
    · rw [Function.update_of_ne he] at hj
      exact Or.inr hj
  have hbefore : ∀ {j t asked}, clients j = some (t, asked) → t < s.tickets := by
    intro j t asked hj
    obtain ⟨f, hf, -⟩ := h.waits j t asked hj
    exact lt_tickets hf
  refine ⟨fair_enqueue hlocked h.fair, ?_, ?_, ?_⟩
  · intro j t asked hj
    rw [future_enqueue]
    rcases hcases hj with ⟨-, rfl⟩ | hj
    · exact ⟨.pending, by rw [future_tickets, if_pos rfl, Option.none_or], nofun⟩
    · obtain ⟨f, hf, hreq⟩ := h.waits j t asked hj
      exact ⟨f, by rw [hf, Option.some_or], hreq⟩
  · intro t f hf
    rw [future_enqueue] at hf
    by_cases ht : s.tickets = t
    · subst ht
      exact ⟨n, false, by rw [Function.update_self]⟩
    · rw [if_neg ht, Option.or_none] at hf
      obtain ⟨j, asked, hj⟩ := h.owned t f hf
      have hne : j ≠ n := by
        intro he
        have := hlast j _ hj
        omega
      exact ⟨j, asked, by rw [Function.update_of_ne hne, hj]⟩
  · intro j k t t' asked asked' hj hk hlt
    rcases hcases hj with ⟨hn, -⟩ | hold <;> rcases hcases hk with ⟨hn', ht⟩ | hold'
    · omega
    · have := hlast k _ hold'
      omega
    · rw [ht]
      exact hbefore hold
    · exact h.ordered j k t t' asked asked' hold hold' hlt

theorem leave (h : Serves s clients) (hj : clients j = some (t, asked))
    (hfair : Fair s'.waiters s'.value) (hgone : s'.future t = none)
    (hgrants : ∀ t', t' ≠ t → Grants (s.future t') (s'.future t')) :
    Serves s' (Function.update clients j none) := by
  have hback : ∀ {k t' asked'}, Function.update clients j none k = some (t', asked') →
      k ≠ j ∧ clients k = some (t', asked') := by
    intro k t' asked' hk
    by_cases he : k = j
    · rw [he, Function.update_self] at hk
      cases hk
    · rw [Function.update_of_ne he] at hk
      exact ⟨he, hk⟩
  refine ⟨hfair, ?_, ?_, ?_⟩
  · intro k t' asked' hk
    obtain ⟨hne, hk⟩ := hback hk
    obtain ⟨f, hf, hreq⟩ := h.waits k t' asked' hk
    have ht : t' ≠ t := by
      rintro rfl
      exact hne (h.once hk hj)
    rcases hgrants t' ht with he | ⟨-, he⟩
    · exact ⟨f, he.trans hf, hreq⟩
    · exact ⟨.granted, he, nofun⟩
  · intro t' f hf
    have ht : t' ≠ t := by
      rintro rfl
      rw [hgone] at hf
      cases hf
    obtain ⟨f₀, hf₀⟩ : ∃ f₀, s.future t' = some f₀ := by
      rcases hgrants t' ht with he | ⟨he, -⟩
      · exact ⟨f, he.symm.trans hf⟩
      · exact ⟨_, he⟩
    obtain ⟨k, asked', hk⟩ := h.owned t' f₀ hf₀
    refine ⟨k, asked', ?_⟩
    rw [Function.update_of_ne, hk]
    rintro rfl
    rw [hj] at hk
    exact ht (Prod.mk.inj (Option.some.inj hk)).1.symm
  · intro k l t₁ t₂ asked₁ asked₂ hk hl hlt
    exact h.ordered k l t₁ t₂ asked₁ asked₂ (hback hk).2 (hback hl).2 hlt

theorem resume (h : Serves s clients) (hj : clients j = some (t, asked)) :
    Serves (s.resume t) (Function.update clients j none) := by
  refine h.leave hj (fair_resume h.fair t) (future_resume s t) fun t' ht => ?_
  have hg := grants_resume s t t'
  rwa [if_neg ht] at hg

theorem abandon (h : Serves s clients) (hj : clients j = some (t, asked)) :
    Serves (s.abandon t) (Function.update clients j none) := by
  refine h.leave hj (fair_abandon h.fair t) (future_abandon s t) fun t' ht => ?_
  have hg := grants_abandon s t t'
  rwa [if_neg ht] at hg

theorem cancelFuture (h : Serves s clients) (hj : clients j = some (t, asked)) :
    Serves (s.cancelFuture t) (Function.update clients j (some (t, true))) := by
  have hback : ∀ {k t' asked'}, Function.update clients j (some (t, true)) k = some (t', asked') →
      ∃ asked₀, clients k = some (t', asked₀) ∧ (asked₀ = true → asked' = true) ∧
        (t' = t → asked' = true) := by
    intro k t' asked' hk
    by_cases he : k = j
    · subst he
      rw [Function.update_self] at hk
      cases hk
      exact ⟨asked, hj, fun _ => rfl, fun _ => rfl⟩
    · rw [Function.update_of_ne he] at hk
      refine ⟨asked', hk, id, ?_⟩
      rintro rfl
      exact absurd (h.once hk hj) he
  refine ⟨fair_cancelFuture h.fair t, ?_, ?_, ?_⟩
  · intro k t' asked' hk
    obtain ⟨asked₀, hk, hmono, hreq⟩ := hback hk
    obtain ⟨f, hf, hcancelled⟩ := h.waits k t' asked₀ hk
    rw [future_cancelFuture, hf]
    by_cases ht : t' = t
    · exact ⟨_, if_pos ht, fun _ => hreq ht⟩
    · exact ⟨f, if_neg ht, fun he => hmono (hcancelled he)⟩
  · intro t' f hf
    have hsome : ∃ f₀, s.future t' = some f₀ := by
      rw [future_cancelFuture] at hf
      split at hf
      · obtain ⟨f₀, hf₀, -⟩ := Option.map_eq_some_iff.mp hf
        exact ⟨f₀, hf₀⟩
      · exact ⟨f, hf⟩
    obtain ⟨f₀, hf₀⟩ := hsome
    obtain ⟨k, asked', hk⟩ := h.owned t' f₀ hf₀
    by_cases he : k = j
    · subst he
      rw [hj] at hk
      cases hk
      exact ⟨k, true, by rw [Function.update_self]⟩
    · exact ⟨k, asked', by rw [Function.update_of_ne he, hk]⟩
  · intro k l t₁ t₂ asked₁ asked₂ hk hl hlt
    obtain ⟨_, hk, -⟩ := hback hk
    obtain ⟨_, hl, -⟩ := hback hl
    exact h.ordered k l t₁ t₂ _ _ hk hl hlt

/-- While one waits, a client can go on or end, or all slots are taken. -/
theorem able_or_full (h : Serves s clients) (hj : clients j = some (t, asked)) :
    (∃ k t' asked', clients k = some (t', asked') ∧
      (asked' = true ∨ s.future t' = some .granted)) ∨ s.free = 0 := by
  obtain ⟨f, hf, hreq⟩ := h.waits j t asked hj
  cases f with
  | cancelled => exact Or.inl ⟨j, t, asked, hj, Or.inl (hreq rfl)⟩
  | granted => exact Or.inl ⟨j, t, asked, hj, Or.inr hf⟩
  | pending =>
    by_cases hgrant : ∃ v ∈ s.waiters, v.2 = .granted
    · -- A waiter that was granted a slot is still to run.
      obtain ⟨v, hv, hg⟩ := hgrant
      have hfuture := future_of_mem hv
      rw [hg] at hfuture
      obtain ⟨k, asked', hk⟩ := h.owned _ _ hfuture
      exact Or.inl ⟨k, v.1, asked', hk, Or.inr hfuture⟩
    · right
      have hvalue : s.value = 0 :=
        (h.fair.woken _ (mem_of_future hf) rfl).resolve_right hgrant
      have hnone : s.waiters.countP isGranted = 0 := by
        rw [List.countP_eq_zero]
        intro v hv hg
        exact hgrant ⟨v, hv, by simpa [isGranted] using hg⟩
      unfold free
      omega

/-- No client is granted a slot before one that came earlier and is still pending. -/
theorem inTurn (h : Serves s clients) {k t' : ℕ} {asked' : Bool} (hk : clients k = some (t, asked))
    (hj : clients j = some (t', asked')) (hpending : s.future t = some .pending)
    (hgranted : s.future t' = some .granted) : j < k := by
  have hlt := lt_of_granted h.fair hpending hgranted
  rcases Nat.lt_trichotomy j k with hjk | rfl | hkj
  · exact hjk
  · rw [hk] at hj
    cases hj
    exact absurd hlt (Nat.lt_irrefl _)
  · have := h.ordered k j t t' _ _ hk hj hkj
    omega

end Serves

end FifoSemaphore
