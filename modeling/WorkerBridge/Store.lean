import WorkerBridge.Table
import WorkerBridge.TaskState

namespace WorkerBridge

open TaskState

/-- The rows of the table, in the order they were inserted. -/
structure Store where
  rows : List TaskRecord
  distinct : Table.Distinct TaskRecord.taskId rows
  unique : Table.Unique TaskRecord.idempotencyKey rows

namespace Store

def empty : Store := ⟨[], List.Pairwise.nil, List.Pairwise.nil⟩

def get (st : Store) (taskId : String) : Option TaskRecord :=
  Table.find TaskRecord.taskId st.rows taskId

def getByIdempotencyKey (st : Store) (key : String) : Option TaskRecord :=
  st.rows.find? fun r => decide (r.idempotencyKey = some key)

/-- Another row already holds the key of `task`. -/
def KeyTaken (st : Store) (task : TaskRecord) : Prop :=
  ∃ r ∈ st.rows, r.taskId ≠ task.taskId ∧ task.idempotencyKey ≠ none ∧
    r.idempotencyKey = task.idempotencyKey

instance (st : Store) (task : TaskRecord) : Decidable (st.KeyTaken task) :=
  inferInstanceAs (Decidable (∃ r ∈ st.rows, _))

theorem free_of_not_keyTaken {st : Store} {task : TaskRecord} (h : ¬ st.KeyTaken task) :
    ∀ x ∈ st.rows, x.taskId ≠ task.taskId → task.idempotencyKey ≠ none →
      x.idempotencyKey ≠ task.idempotencyKey :=
  fun x hx hne hk he => h ⟨x, hx, hne, hk, he⟩

/-- A plain `INSERT`. -/
def insert (st : Store) (task : TaskRecord) : Except PyExc Store :=
  if hid : st.get task.taskId = none then
    if hkey : st.KeyTaken task then .error (.integrityError "tasks.idempotency_key")
    else .ok
      { rows := st.rows ++ [task]
        distinct := st.distinct.append hid
        unique := st.unique.append fun x hx =>
          free_of_not_keyTaken hkey x hx (Table.find_eq_none.mp hid x hx) }
  else .error (.integrityError "tasks.task_id")

/-- `INSERT ... ON CONFLICT(task_id) DO UPDATE`, which keeps `created_at`. -/
def upsert (st : Store) (task : TaskRecord) : Except PyExc Store :=
  match st.get task.taskId with
  | none => st.insert task
  | some old =>
    if hkey : st.KeyTaken task then .error (.integrityError "tasks.idempotency_key")
    else .ok
      { rows := Table.replace TaskRecord.taskId st.rows { task with createdAt := old.createdAt }
        distinct := st.distinct.replace
        unique := st.unique.replace st.distinct (free_of_not_keyTaken hkey) }

/-- Insert the task, or return the row that already has its key.  An empty key
counts as no key here, though it is a value to the table. -/
def createOrGet (st : Store) (task : TaskRecord) : Except PyExc (Store × TaskRecord × Bool) :=
  match task.idempotencyKey with
  | none => (st.upsert task).map fun st' => (st', task, true)
  | some key =>
    -- The empty string is falsy, so the table and not this lookup sees it.
    if key = "" then (st.upsert task).map fun st' => (st', task, true)
    else match st.getByIdempotencyKey key with
      | some existing => .ok (st, existing, false)
      | none => (st.insert task).map fun st' => (st', task, true)

def listByStates (st : Store) (states : List TaskState) : List TaskRecord :=
  st.rows.filter fun r => decide (r.state ∈ states)

def countByStates (st : Store) (states : List TaskState) : Option String → Nat
  | none => st.rows.countP fun r => decide (r.state ∈ states)
  | some workerId => st.rows.countP fun r => decide (r.state ∈ states) && decide (r.workerId = workerId)

/-- The states `mark_recovering` looks for: those that are not terminal. -/
def recoverableStates : List TaskState := [pending, running, retrying, recovering]

theorem mem_recoverableStates {s : TaskState} : s ∈ recoverableStates ↔ s ∉ terminalStates := by
  cases s <;> decide

/-- The row `mark_recovering` writes for an interrupted task. -/
def markRecovering (task : TaskRecord) (now : String) : TaskRecord :=
  { task with state := recovering, updatedAt := now, dispatchAttemptId := none }

variable {st st' : Store} {task r : TaskRecord} {taskId key : String}

theorem mem_of_get (h : st.get taskId = some r) : r ∈ st.rows ∧ r.taskId = taskId :=
  Table.mem_of_find h

theorem get_of_mem (h : r ∈ st.rows) : st.get r.taskId = some r :=
  Table.find_of_mem st.distinct h

theorem taskId_of_get (h : st.get taskId = some r) : r.taskId = taskId := (mem_of_get h).2

theorem mem_of_getByIdempotencyKey (h : st.getByIdempotencyKey key = some r) :
    r ∈ st.rows ∧ r.idempotencyKey = some key := by
  refine ⟨List.mem_of_find?_eq_some h, ?_⟩
  simpa using List.find?_some h

theorem getByIdempotencyKey_eq_none :
    st.getByIdempotencyKey key = none ↔ ∀ r ∈ st.rows, r.idempotencyKey ≠ some key := by
  simp [getByIdempotencyKey]

theorem eq_of_key_eq {a b : TaskRecord} (ha : a ∈ st.rows) (hb : b ∈ st.rows)
    (hk : a.idempotencyKey = some key) (hk' : b.idempotencyKey = some key) : a = b :=
  Table.eq_of_unique_eq st.unique ha hb (by simp [hk]) (hk.trans hk'.symm)

theorem getByIdempotencyKey_of_mem (h : r ∈ st.rows) (hk : r.idempotencyKey = some key) :
    st.getByIdempotencyKey key = some r := by
  cases hf : st.getByIdempotencyKey key with
  | none => exact absurd hk (getByIdempotencyKey_eq_none.mp hf r h)
  | some x =>
    obtain ⟨hx, hxk⟩ := mem_of_getByIdempotencyKey hf
    rw [eq_of_key_eq hx h hxk hk]

theorem insert_ok (h : st.insert task = .ok st') :
    st.get task.taskId = none ∧ ¬ st.KeyTaken task ∧ st'.rows = st.rows ++ [task] := by
  unfold insert at h
  split at h
  · next hid =>
    split at h
    · cases h
    · next hkey =>
      cases h
      exact ⟨hid, hkey, rfl⟩
  · cases h

theorem get_insert (h : st.insert task = .ok st') (id : String) :
    st'.get id = if id = task.taskId then some task else st.get id := by
  obtain ⟨hid, -, hrows⟩ := insert_ok h
  rw [get, hrows, Table.find_append]
  by_cases he : id = task.taskId
  · subst he
    rw [get] at hid
    simp [hid]
  · have hne : ¬ task.taskId = id := fun h => he h.symm
    simp [he, hne, get]

theorem getByIdempotencyKey_of_insert (h : st.insert task = .ok st')
    (hk : task.idempotencyKey = some key) : st.getByIdempotencyKey key = none := by
  obtain ⟨hid, hkey, -⟩ := insert_ok h
  rw [getByIdempotencyKey_eq_none]
  intro r hr hrk
  apply hkey
  exact ⟨r, hr, Table.find_eq_none.mp hid r hr, by simp [hk], hrk.trans hk.symm⟩

theorem upsert_of_get_none (h : st.get task.taskId = none) : st.upsert task = st.insert task := by
  simp only [upsert, h]

theorem upsert_isOk {old : TaskRecord} (h : st.get task.taskId = some old)
    (hkey : task.idempotencyKey = old.idempotencyKey) : ∃ st', st.upsert task = .ok st' := by
  obtain ⟨hold, hid⟩ := mem_of_get h
  have hfree : ¬ st.KeyTaken task := by
    rintro ⟨x, hx, hne, hk, he⟩
    have hxo : x = old := Table.eq_of_unique_eq st.unique hx hold (he ▸ hk) (he.trans hkey)
    exact hne (hxo ▸ hid)
  simp only [upsert, h, dif_neg hfree]
  exact ⟨_, rfl⟩

theorem upsert_rows_keep {old : TaskRecord} (h : st.get task.taskId = some old)
    (hs : st.upsert task = .ok st') :
    st'.rows = Table.replace TaskRecord.taskId st.rows { task with createdAt := old.createdAt } := by
  simp only [upsert, h] at hs
  split at hs
  · cases hs
  · cases hs
    rfl

theorem get_upsert_keep {old : TaskRecord} (h : st.get task.taskId = some old)
    (hs : st.upsert task = .ok st') (id : String) :
    st'.get id =
      if id = task.taskId then some { task with createdAt := old.createdAt } else st.get id := by
  rw [get, upsert_rows_keep h hs, Table.find_replace]
  by_cases he : id = task.taskId
  · subst he
    rw [get] at h
    rw [if_pos rfl, if_pos rfl, h, Option.map_some]
  · rw [if_neg he, if_neg he]
    rfl

theorem upsert_rows {old : TaskRecord} (h : st.get task.taskId = some old)
    (hc : task.createdAt = old.createdAt) (hs : st.upsert task = .ok st') :
    st'.rows = Table.replace TaskRecord.taskId st.rows task := by
  have hrows := upsert_rows_keep h hs
  rwa [← hc] at hrows

theorem get_upsert {old : TaskRecord} (h : st.get task.taskId = some old)
    (hc : task.createdAt = old.createdAt) (hs : st.upsert task = .ok st') (id : String) :
    st'.get id = if id = task.taskId then some task else st.get id := by
  have hget := get_upsert_keep h hs id
  rwa [← hc] at hget

theorem createOrGet_ok {created : Bool} (hfresh : st.get task.taskId = none)
    (h : st.createOrGet task = .ok (st', r, created)) :
    (created = true ∧ r = task ∧ st.insert task = .ok st') ∨
      (created = false ∧ st' = st ∧ ∃ key, key ≠ "" ∧ task.idempotencyKey = some key ∧
        st.getByIdempotencyKey key = some r) := by
  -- The keys are looked at in the order of the code: none, empty, known, new.
  have hinsert : ∀ f : Except PyExc Store, f.map (fun st' => (st', task, true)) =
      .ok (st', r, created) → created = true ∧ r = task ∧ f = .ok st' := by
    intro f hf
    cases f with
    | error e => cases hf
    | ok st₁ =>
      cases hf
      exact ⟨rfl, rfl, rfl⟩
  unfold createOrGet at h
  rw [upsert_of_get_none hfresh] at h
  split at h
  · exact Or.inl (hinsert _ h)
  · next key hkey =>
    split at h
    · exact Or.inl (hinsert _ h)
    · next hne =>
      split at h
      · next existing hex =>
        cases h
        exact Or.inr ⟨rfl, rfl, key, hne, hkey, hex⟩
      · exact Or.inl (hinsert _ h)

theorem countP_le {f g : TaskRecord → Bool}
    (h : ∀ id r, st'.get id = some r → f r = true → ∃ s, st.get id = some s ∧ g s = true) :
    st'.rows.countP f ≤ st.rows.countP g := by
  have hlen : (st.rows.filter g).length = ((st.rows.filter g).map TaskRecord.taskId).length :=
    (List.length_map _).symm
  rw [List.countP_eq_length_filter (l := st.rows), hlen]
  apply Table.countP_le_length f st'.distinct
  intro r hr hf
  obtain ⟨s, hs, hg⟩ := h r.taskId r (get_of_mem hr) hf
  obtain ⟨hm, hid⟩ := mem_of_get hs
  exact List.mem_map.mpr ⟨s, List.mem_filter.mpr ⟨hm, hg⟩, hid⟩

theorem countP_le_succ {f g : TaskRecord → Bool} (new : String)
    (h : ∀ id r, st'.get id = some r → f r = true → id ≠ new → ∃ s, st.get id = some s ∧ g s = true) :
    st'.rows.countP f ≤ st.rows.countP g + 1 := by
  have hlen : (st.rows.filter g).length + 1 =
      (new :: (st.rows.filter g).map TaskRecord.taskId).length := by
    rw [List.length_cons, List.length_map]
  rw [List.countP_eq_length_filter (l := st.rows), hlen]
  apply Table.countP_le_length f st'.distinct
  intro r hr hf
  -- The ids of the counted rows are the exception and the ids counted before.
  by_cases he : r.taskId = new
  · exact List.mem_cons.mpr (Or.inl he)
  · obtain ⟨s, hs, hg⟩ := h r.taskId r (get_of_mem hr) hf he
    obtain ⟨hm, hid⟩ := mem_of_get hs
    exact List.mem_cons_of_mem _ (List.mem_map.mpr ⟨s, List.mem_filter.mpr ⟨hm, hg⟩, hid⟩)

theorem countP_upsert (f : TaskRecord → Bool) {old : TaskRecord}
    (h : st.get task.taskId = some old) (hc : task.createdAt = old.createdAt)
    (hs : st.upsert task = .ok st') :
    st'.rows.countP f + (if f old then 1 else 0) = st.rows.countP f + if f task then 1 else 0 := by
  rw [upsert_rows h hc hs]
  exact Table.countP_replace f st.distinct h

theorem countP_insert (f : TaskRecord → Bool) (hs : st.insert task = .ok st') :
    st'.rows.countP f = st.rows.countP f + if f task then 1 else 0 := by
  obtain ⟨-, -, hrows⟩ := insert_ok hs
  rw [hrows, List.countP_append, List.countP_singleton]

/-- The rows that are not terminal, of one worker or of all. -/
def isLive (r : TaskRecord) : Bool := decide (r.state ∉ terminalStates)

def isLiveOf (workerId : String) (r : TaskRecord) : Bool :=
  isLive r && decide (r.workerId = workerId)

theorem countP_add {f g k : TaskRecord → Bool}
    (h : ∀ r, (if f r then 1 else 0) = (if g r then 1 else 0) + if k r then 1 else 0)
    (rows : List TaskRecord) : rows.countP f = rows.countP g + rows.countP k := by
  induction rows with
  | nil => rfl
  | cons r rest ih =>
    have hr := h r
    simp only [List.countP_cons, ih]
    omega

theorem countP_isLive (st : Store) : st.rows.countP isLive =
    st.countByStates queuedStates none + st.countByStates activeStates none := by
  refine countP_add (fun r => ?_) st.rows
  unfold isLive
  cases r.state <;> decide

theorem countP_isLiveOf (st : Store) (workerId : String) : st.rows.countP (isLiveOf workerId) =
    st.countByStates queuedStates (some workerId) +
      st.countByStates activeStates (some workerId) := by
  refine countP_add (fun r => ?_) st.rows
  unfold isLiveOf isLive
  by_cases hw : r.workerId = workerId
  · simp only [hw]
    cases r.state <;> decide
  · simp [hw]

end Store

end WorkerBridge
