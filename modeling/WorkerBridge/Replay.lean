import WorkerBridge.Admission
import WorkerBridge.Dispatch

namespace WorkerBridge

open TaskState

/-- What `sqlite3` raises when it takes the parameters of a statement.  It encodes a text as UTF-8,
which has no lone surrogates; a `Text` has none either, so what can be bound is left open.  `record`
is `_params(task)` with the binding of its values. -/
structure Binding where
  record : TaskRecord → Except PyExc Unit
  key : String → Except PyExc Unit

namespace Store

/-- `create_or_get`, with the binding of the parameters before each statement. -/
def createOrGetBound (binding : Binding) (st : Store) (task : TaskRecord) :
    Except PyExc (Store × TaskRecord × Bool) :=
  let upsert : Except PyExc (Store × TaskRecord × Bool) := do
    binding.record task
    let st' ← st.upsert task
    return (st', task, true)
  match task.idempotencyKey with
  | none => upsert
  | some key =>
    if key = "" then upsert
    else do
      binding.key key
      match st.getByIdempotencyKey key with
      | some existing => .ok (st, existing, false)
      | none =>
        binding.record task
        let st' ← st.insert task
        return (st', task, true)

variable {binding : Binding} {st : Store} {task : TaskRecord}

/-- Where everything can be bound it is `create_or_get` on the table. -/
theorem createOrGetBound_eq (hrecord : binding.record task = .ok ())
    (hkey : ∀ key ∈ task.idempotencyKey, binding.key key = .ok ()) :
    st.createOrGetBound binding task = st.createOrGet task := by
  unfold createOrGetBound createOrGet
  rw [hrecord]
  cases hk : task.idempotencyKey with
  | none => cases st.upsert task <;> rfl
  | some key =>
    simp only [hkey key hk]
    split
    · cases st.upsert task <;> rfl
    · show (match st.getByIdempotencyKey key with | some existing => _ | none => _) = _
      cases st.getByIdempotencyKey key with
      | some existing => rfl
      | none => cases st.insert task <;> rfl

theorem createOrGetBound_keyless (hfresh : st.get task.taskId = none)
    (hkey : Keyless task.idempotencyKey) : st.createOrGetBound binding task =
      (binding.record task).bind fun _ => (st.insert task).map fun st' => (st', task, true) := by
  have hupsert : (binding.record task).bind (fun _ =>
      (st.upsert task).bind fun st' => .ok (st', task, true)) =
      (binding.record task).bind fun _ => (st.insert task).map fun st' => (st', task, true) := by
    rw [upsert_of_get_none hfresh]
    cases st.insert task <;> rfl
  unfold createOrGetBound
  rcases hkey with hnone | hempty
  · rw [hnone]
    exact hupsert
  · rw [hempty]
    exact (if_pos rfl).trans hupsert

theorem insert_of_free (hfresh : st.get task.taskId = none) (hfree : ¬ st.KeyTaken task) :
    ∃ st', st.insert task = .ok st' ∧ st'.rows = st.rows ++ [task] := by
  unfold insert
  rw [dif_pos hfresh, dif_neg hfree]
  exact ⟨_, rfl, rfl⟩

theorem keyTaken_keyless (hfresh : st.get task.taskId = none)
    (hkey : Keyless task.idempotencyKey) :
    st.KeyTaken task ↔ task.idempotencyKey = some "" ∧ st.getByIdempotencyKey "" ≠ none := by
  constructor
  · rintro ⟨r, hr, -, hne, he⟩
    have hempty : task.idempotencyKey = some "" := hkey.resolve_left hne
    refine ⟨hempty, ?_⟩
    rw [getByIdempotencyKey_of_mem hr (he.trans hempty)]
    exact Option.some_ne_none r
  · rintro ⟨hempty, hsome⟩
    obtain ⟨r, hr⟩ := Option.ne_none_iff_exists'.mp hsome
    obtain ⟨hmem, hrk⟩ := mem_of_getByIdempotencyKey hr
    refine ⟨r, hmem, Table.find_eq_none.mp hfresh r hmem, ?_, hrk.trans hempty.symm⟩
    rw [hempty]
    exact Option.some_ne_none ""

end Store

/-- A new task without a usable key gets its row, unless its values cannot be bound, or its key is
the empty string and another row has that already. -/
theorem keyless_creates_iff (binding : Binding) (st : Store) (task : TaskRecord)
    (hfresh : st.get task.taskId = none) (hkey : Keyless task.idempotencyKey) :
    (∃ st', st.createOrGetBound binding task = .ok (st', task, true) ∧
        st'.rows = st.rows ++ [task]) ↔
      binding.record task = .ok () ∧
        (task.idempotencyKey = some "" → st.getByIdempotencyKey "" = none) := by
  rw [Store.createOrGetBound_keyless hfresh hkey]
  constructor
  · rintro ⟨st', hst', -⟩
    cases hbind : binding.record task with
    | error exc =>
      rw [hbind] at hst'
      cases hst'
    | ok u =>
      refine ⟨rfl, fun hempty => ?_⟩
      rw [hbind] at hst'
      cases hinsert : st.insert task with
      | error exc =>
        rw [hinsert] at hst'
        cases hst'
      | ok st₁ => exact Store.getByIdempotencyKey_of_insert hinsert hempty
  · rintro ⟨hbind, hfirst⟩
    have hfree : ¬ st.KeyTaken task := by
      rw [Store.keyTaken_keyless hfresh hkey]
      exact fun h => h.2 (hfirst h.1)
    obtain ⟨st', hinsert, hrows⟩ := Store.insert_of_free hfresh hfree
    refine ⟨st', ?_, hrows⟩
    rw [hbind, hinsert]
    rfl

namespace Sample

def binding : Binding := ⟨fun _ => .ok (), fun _ => .ok ()⟩

def task (taskId : String) (key : Option String) : TaskRecord :=
  .new taskId "w" prompt (some "/srv".toList) key 300 "t0"

end Sample

/-- The first task with an empty key, next to one without. -/
theorem keyless_creates_iff_first : ∃ st st' : Store, st.rows.length = 1 ∧
    st.createOrGetBound Sample.binding (Sample.task "b" (some "")) =
      .ok (st', Sample.task "b" (some ""), true) ∧
    st'.rows = st.rows ++ [Sample.task "b" (some "")] := by
  have hfree : ¬ Store.empty.KeyTaken (Sample.task "a" none) := by decide
  obtain ⟨st, -, hrows⟩ := Store.insert_of_free rfl hfree
  have hget : ∀ id, id ≠ "a" → st.get id = none := by
    intro id hne
    unfold Store.get
    rw [hrows]
    exact Table.find_eq_none.mpr fun r hr => by
      rw [List.mem_singleton.mp hr]
      exact Ne.symm hne
  obtain ⟨st', hst', hrows'⟩ := (keyless_creates_iff Sample.binding st
    (Sample.task "b" (some "")) (hget "b" (by decide)) (Or.inr rfl)).mpr ⟨rfl, fun _ => by
      rw [Store.getByIdempotencyKey_eq_none, hrows]
      intro r hr
      rw [List.mem_singleton.mp hr]
      exact fun he => by cases he⟩
  exact ⟨st, st', by rw [hrows]; rfl, hst', hrows'⟩

def Sample.refusesEmptyKey (b : Bridge) : Bool :=
  decide (b.world.store.get "b" = none) &&
    match b.world.store.createOrGet (task "b" (some "")) with
    | .error exc => decide (exc = .integrityError "tasks.idempotency_key")
    | .ok _ => false

/-- The second task with an empty key raises. -/
theorem second_empty_key_raises : ∃ b : Bridge,
    (Bridge.machine Sample.host).Reachable Runs.anyStep b ∧ b.world.store.get "b" = none ∧
    Keyless (Sample.task "b" (some "")).idempotencyKey ∧
    b.world.store.createOrGetBound Sample.binding (Sample.task "b" (some "")) =
      .error (.integrityError "tasks.idempotency_key") := by
  obtain ⟨b, hb, hp⟩ := Runs.Machine.exists_reachable_of_run (Bridge.machine Sample.host)
    Runs.anyStep [.start (Sample.settings .manual 0) "t0", Sample.call "a" (some "")]
    Sample.refusesEmptyKey (by decide)
  unfold Sample.refusesEmptyKey at hp
  rw [Bool.and_eq_true, decide_eq_true_iff] at hp
  refine ⟨b, hb, hp.1, Or.inr rfl, ?_⟩
  rw [Store.createOrGetBound_eq rfl fun _ _ => rfl]
  cases hcreate : b.world.store.createOrGet (Sample.task "b" (some "")) with
  | ok out =>
    rw [hcreate] at hp
    cases hp.2
  | error exc =>
    rw [hcreate] at hp
    rw [of_decide_eq_true hp.2]

namespace Process

variable {p p' : Process} {request : CallRequest} {taskId now : String} {answer : TaskResponse}

/-- Another submission has stored the row `r` with the key of the request. -/
def Known (p : Process) (request : CallRequest) (r : TaskRecord) : Prop :=
  r ∈ p.store.rows ∧ ∃ key, key ≠ "" ∧ request.idempotencyKey = some key ∧
    r.idempotencyKey = some key

theorem call_answered {host : Host} (hfresh : p.row taskId = none)
    (h : p.call host request taskId now = .ok (p', .task answer)) :
    (∃ r, p.Known request r ∧ answer = taskResponse r ∧ p'.store = p.store ∧ p'.mgr = p.mgr) ∨
      (∃ task, (∀ r, ¬ p.Known request r) ∧ answer = taskResponse task ∧ task.taskId = taskId ∧
        task.workerId = request.workerId ∧ p'.store.rows = p.store.rows ++ [task]) := by
  cases call_submits hfresh h with
  | created worker directory task store _ _ _ htask hinsert =>
    obtain ⟨-, -, hrows⟩ := Store.insert_ok hinsert
    have hkey : task.idempotencyKey = request.idempotencyKey := by rw [htask]; rfl
    refine Or.inr ⟨task, ?_, rfl, by rw [htask]; rfl, by rw [htask]; rfl, hrows⟩
    -- An insert with a key in the table would have been refused.
    rintro s ⟨hs, key, -, hreq, hsk⟩
    have hnone := Store.getByIdempotencyKey_of_insert hinsert (hkey.trans hreq)
    exact Store.getByIdempotencyKey_eq_none.mp hnone s hs hsk
  | known key r hne hkey hr hrk =>
    exact Or.inl ⟨r, ⟨hr, key, hne, hkey, hrk⟩, rfl, rfl, rfl⟩

theorem Known.unique {r s : TaskRecord} (hr : p.Known request r) (hs : p.Known request s) :
    r = s := by
  obtain ⟨hr, key, -, hreq, hrk⟩ := hr
  obtain ⟨hs, key', -, hreq', hsk⟩ := hs
  obtain rfl : key = key' := Option.some.inj (hreq.symm.trans hreq')
  exact Store.eq_of_key_eq hr hs hrk hsk

end Process

/-- A call with a known key is answered with the row of that key, whatever its
worker, and changes no row and no coroutine; any other call is answered with a
new row of the worker it names. -/
theorem replay_answers_stored_row {host : Host} {p p' : Process} {request : CallRequest}
    {taskId now : String} {answer : TaskResponse} (hfresh : p.row taskId = none)
    (h : p.call host request taskId now = .ok (p', .task answer)) :
    (∀ r, p.Known request r → answer = taskResponse r ∧ p'.store = p.store ∧ p'.mgr = p.mgr) ∧
    ((∀ r, ¬ p.Known request r) → answer.taskId = taskId ∧ answer.workerId = request.workerId) ∧
    (answer.workerId = request.workerId ↔
      ∀ r, p.Known request r → r.workerId = request.workerId) := by
  rcases Process.call_answered hfresh h with
    ⟨s, hs, rfl, hstore, hmgr⟩ | ⟨task, hnone, rfl, hid, hworker, -⟩
  · refine ⟨?_, fun hnot => absurd hs (hnot s), ?_⟩
    · intro r hr
      rw [hr.unique hs]
      exact ⟨rfl, hstore, hmgr⟩
    · constructor
      · intro hw r hr
        rw [hr.unique hs]
        exact hw
      · exact fun hall => hall s hs
  · refine ⟨fun r hr => absurd hr (hnone r), fun _ => ⟨hid, hworker⟩, ?_⟩
    exact iff_of_true hworker fun r hr => absurd hr (hnone r)

namespace Sample

def pair : Settings :=
  { settings .manual 0 with
    workers := workers ++ workers.map fun worker => { worker with workerId := "v" } }

def reply (workerId : String) : Bridge → Option TaskResponse
  | .down _ => none
  | .up p =>
    match p.call host ⟨workerId, prompt, some "k"⟩ "b" "t1" with
    | .ok (_, .task answer) => if p.row "b" = none then some answer else none
    | _ => none

theorem reply_eq_some {workerId : String} {b : Bridge} {answer : TaskResponse}
    (h : reply workerId b = some answer) : ∃ p p', b = .up p ∧ p.row "b" = none ∧
      p.call host ⟨workerId, prompt, some "k"⟩ "b" "t1" = .ok (p', .task answer) := by
  unfold reply at h
  split at h
  · cases h
  · next p =>
    split at h
    · next p' _ hcall =>
      split at h
      · next hrow =>
        cases h
        exact ⟨p, p', rfl, hrow, hcall⟩
      · cases h
    · cases h

theorem exists_reply (workerId : String)
    (h : ((Bridge.machine host).run Runs.anyStep (Bridge.machine host).start
      [.start pair "t0", call "a" (some "k")]).map
        (fun b => (reply workerId b).any fun answer => decide (answer.workerId = "w")) = some true) :
    ∃ (p p' : Process) (answer : TaskResponse),
      (Bridge.machine host).Reachable Runs.anyStep (.up p) ∧ p.row "b" = none ∧
      p.call host ⟨workerId, prompt, some "k"⟩ "b" "t1" = .ok (p', .task answer) ∧
      answer.workerId = "w" := by
  obtain ⟨b, hb, hp⟩ := Runs.Machine.exists_reachable_of_run _ _ _ _ h
  rw [Option.any_eq_true] at hp
  obtain ⟨answer, hreply, hw⟩ := hp
  obtain ⟨p, p', rfl, hrow, hcall⟩ := reply_eq_some hreply
  exact ⟨p, p', answer, hb, hrow, hcall, of_decide_eq_true hw⟩

end Sample

/-- A retry by the worker of the key. -/
theorem replay_answers_stored_row_same : ∃ (p : Process) (answer : TaskResponse),
    (Bridge.machine Sample.host).Reachable Runs.anyStep (.up p) ∧
    ∀ r, p.Known ⟨"w", Sample.prompt, some "k"⟩ r → answer = taskResponse r ∧ r.workerId = "w" := by
  obtain ⟨p, p', answer, hp, hrow, hcall, hw⟩ := Sample.exists_reply "w" (by decide)
  obtain ⟨hknown, -, hiff⟩ := replay_answers_stored_row hrow hcall
  exact ⟨p, answer, hp, fun r hr => ⟨(hknown r hr).1, hiff.mp hw r hr⟩⟩

/-- A call of `v` with a key of `w` is answered with the task of `w`. -/
theorem replay_crosses_workers : ∃ (p p' : Process) (request : CallRequest) (answer : TaskResponse),
    (Bridge.machine Sample.host).Reachable Runs.anyStep (.up p) ∧ p.row "b" = none ∧
    p.call Sample.host request "b" "t1" = .ok (p', .task answer) ∧
    answer.workerId ≠ request.workerId := by
  obtain ⟨p, p', answer, hp, hrow, hcall, hw⟩ := Sample.exists_reply "v" (by decide)
  exact ⟨p, p', _, answer, hp, hrow, hcall, by rw [hw]; decide⟩

end WorkerBridge
