import WorkerBridge.Sqlite

namespace WorkerBridge

namespace Sqlite

open Sql TaskState

variable {c : Codec} {task r : TaskRecord} {item item' : String → Option Value}

theorem bind_eq_ok {ε α β : Type} {x : Except ε α} {f : α → Except ε β} {b : β}
    (h : (x >>= f) = .ok b) : ∃ a, x = .ok a ∧ f a = .ok b := by
  cases x with
  | error e => cases h
  | ok a => exact ⟨a, rfl, h⟩

/-- The result of a record is a dictionary that survives `json.dumps` and `json.loads`. -/
def Storable (c : Codec) (task : TaskRecord) : Prop :=
  ∀ v, task.result = some v → c.dumps v ≠ [] ∧ c.loads (c.dumps v) = .ok v ∧
    ∃ fields, v = .obj fields

theorem names_taskColumns : (names taskColumns).Nodup := by decide

theorem map_fst_params : (params c task).map Prod.fst = names taskColumns := rfl

theorem rowToRecord_congr (h : ∀ name ∈ names taskColumns, item name = item' name) :
    rowToRecord c item = rowToRecord c item' := by
  simp only [names, taskColumns, List.map_cons, List.map_nil, List.forall_mem_cons] at h
  obtain ⟨h1, h2, h3, h4, h5, h6, h7, h8, h9, h10, h11, h12, h13, h14, h15, -⟩ := h
  simp only [rowToRecord, textCell, textOrNoneCell, countCell, secondsCell, cell, h1, h2, h3, h4,
    h5, h6, h7, h8, h9, h10, h11, h12, h13, h14, h15]

theorem stateOfValue_value (s : TaskState) : stateOfValue s.value.toList = .ok s := by
  cases s <;> rfl

section Cells

variable {name : String}

theorem textCell_of {s : Text} (h : item name = some (.text s)) : textCell item name = .ok s := by
  unfold textCell cell
  rw [h]
  rfl

theorem textOrNoneCell_of {s : Option Text} (h : item name = some (textOrNull s)) :
    textOrNoneCell item name = .ok s := by
  unfold textOrNoneCell cell
  rw [h]
  cases s <;> rfl

theorem textCell_ok {s : Text} (h : textCell item name = .ok s) : item name = some (.text s) := by
  obtain ⟨v, hv, h⟩ := bind_eq_ok h
  unfold cell at hv
  cases hitem : item name with
  | none =>
    rw [hitem] at hv
    cases hv
  | some w =>
    rw [hitem] at hv
    cases hv
    cases v <;> cases h
    rfl

theorem textOrNoneCell_ok {s : Option Text} (h : textOrNoneCell item name = .ok s) :
    item name = some (textOrNull s) := by
  obtain ⟨v, hv, h⟩ := bind_eq_ok h
  unfold cell at hv
  cases hitem : item name with
  | none =>
    rw [hitem] at hv
    cases hv
  | some w =>
    rw [hitem] at hv
    cases hv
    cases v <;> cases h <;> rfl

end Cells

theorem resultOfText_of (h : Storable c task) :
    resultOfText c (task.result.map c.dumps) = .ok task.result := by
  cases hres : task.result with
  | none => rfl
  | some v =>
    obtain ⟨hne, hloads, fields, rfl⟩ := h v hres
    obtain ⟨ch, rest, hdumps⟩ := List.exists_cons_of_ne_nil hne
    rw [Option.map_some, hdumps]
    rw [hdumps] at hloads
    unfold resultOfText
    simp only [hloads, bind, Except.bind]

theorem map_ofList_toList (s : Option String) : (s.map String.toList).map String.ofList = s := by
  cases s with
  | none => rfl
  | some s => simp

theorem rowToRecord_of (hs : Storable c task)
    (h : ∀ name value, (name, value) ∈ params c task → item name = some value) :
    rowToRecord c item = .ok task := by
  have h' : ∀ p ∈ params c task, item p.1 = some p.2 := fun p hp => h p.1 p.2 hp
  simp only [params, List.forall_mem_cons] at h'
  obtain ⟨h1, h2, h3, h4, h5, h6, h7, h8, h9, h10, h11, h12, h13, h14, h15, -⟩ := h'
  have hcount : countCell item "attempt_count" = .ok task.attemptCount := by
    unfold countCell cell
    rw [h7]
    rfl
  have hseconds : secondsCell item "timeout_seconds" = .ok task.timeoutSeconds := by
    unfold secondsCell cell
    rw [h15]
    rfl
  unfold rowToRecord
  rw [textCell_of h1, textCell_of h2, textCell_of h3, textOrNoneCell_of h4, textOrNoneCell_of h5,
    textOrNoneCell_of h6, hcount, textCell_of h8, textOrNoneCell_of h9, textOrNoneCell_of h10,
    textCell_of h11, textCell_of h12, textOrNoneCell_of h13, textOrNoneCell_of h14, hseconds]
  simp only [bind, Except.bind, stateOfValue_value, resultOfText_of hs, map_ofList_toList,
    String.ofList_toList]

theorem countCell_ok {name : String} {n : ℕ} (h : countCell item name = .ok n) :
    item name = some (.integer n) := by
  obtain ⟨v, hv, h⟩ := bind_eq_ok h
  unfold cell at hv
  cases hitem : item name with
  | none =>
    rw [hitem] at hv
    cases hv
  | some w =>
    rw [hitem] at hv
    cases hv
    cases v with
    | integer k =>
      cases k <;> cases h
      rfl
    | null | real | text => cases h

theorem stateOfValue_ok {value : Text} {s : TaskState} (h : stateOfValue value = .ok s) :
    s.value.toList = value := by
  unfold stateOfValue at h
  split at h
  · next s' hfind =>
    cases h
    have hsome := List.find?_some hfind
    rwa [decide_eq_true_iff] at hsome
  · cases h

theorem toList_map_ofList (s : Option Text) : (s.map String.ofList).map String.toList = s := by
  cases s with
  | none => rfl
  | some s => simp

/-- What a row holds that is read as a record, in the columns that queries look at and
in those that were added. -/
structure Cells (item : String → Option Value) (r : TaskRecord) : Prop where
  taskId : item "task_id" = some (.text r.taskId.toList)
  workerId : item "worker_id" = some (.text r.workerId.toList)
  workingDirectory : item "working_directory" = some (textOrNull r.workingDirectory)
  idempotencyKey : item "idempotency_key" = some (textOrNull (r.idempotencyKey.map String.toList))
  dispatchAttemptId :
    item "dispatch_attempt_id" = some (textOrNull (r.dispatchAttemptId.map String.toList))
  attemptCount : item "attempt_count" = some (.integer r.attemptCount)
  state : item "state" = some (.text r.state.value.toList)
  createdAt : item "created_at" = some (.text r.createdAt.toList)

theorem cells_of_rowToRecord (h : rowToRecord c item = .ok r) : Cells item r := by
  unfold rowToRecord at h
  obtain ⟨taskId, h1, h⟩ := bind_eq_ok h
  obtain ⟨workerId, h2, h⟩ := bind_eq_ok h
  obtain ⟨prompt, -, h⟩ := bind_eq_ok h
  obtain ⟨workingDirectory, h4, h⟩ := bind_eq_ok h
  obtain ⟨idempotencyKey, h5, h⟩ := bind_eq_ok h
  obtain ⟨dispatchAttemptId, h6, h⟩ := bind_eq_ok h
  obtain ⟨attemptCount, h7, h⟩ := bind_eq_ok h
  obtain ⟨value, h8, h⟩ := bind_eq_ok h
  obtain ⟨state, hstate, h⟩ := bind_eq_ok h
  obtain ⟨text, -, h⟩ := bind_eq_ok h
  obtain ⟨result, -, h⟩ := bind_eq_ok h
  obtain ⟨error, -, h⟩ := bind_eq_ok h
  obtain ⟨createdAt, h11, h⟩ := bind_eq_ok h
  obtain ⟨updatedAt, -, h⟩ := bind_eq_ok h
  obtain ⟨startedAt, -, h⟩ := bind_eq_ok h
  obtain ⟨completedAt, -, h⟩ := bind_eq_ok h
  obtain ⟨timeoutSeconds, -, h⟩ := bind_eq_ok h
  cases h
  constructor
  · rw [textCell_ok h1, String.toList_ofList]
  · rw [textCell_ok h2, String.toList_ofList]
  · exact textOrNoneCell_ok h4
  · rw [textOrNoneCell_ok h5, toList_map_ofList]
  · rw [textOrNoneCell_ok h6, toList_map_ofList]
  · exact countCell_ok h7
  · rw [textCell_ok h8, stateOfValue_ok hstate]
  · rw [textCell_ok h11, String.toList_ofList]

/-- What a column has in the rows that were there before it was added. -/
def initialOf (name : String) : Option Value :=
  (addedColumns.find? fun column => decide (column.name = name)).map Column.initial

def readable (c : Codec) (t : Relation) (row : Row) : Except PyExc TaskRecord :=
  rowToRecord c fun name => (t.item row name).or (initialOf name)

/-- The columns of this version, `task_id` before `idempotency_key`, but for added ones that may be
missing. -/
structure Schema (t : Relation) : Prop where
  known : ∀ column ∈ t.columns, column ∈ taskColumns
  base : ∀ column ∈ taskColumns, column ∈ t.columns ∨ column ∈ addedColumns
  keys : names (t.columns.filter Column.unique) = ["task_id", "idempotency_key"]

structure Holds (c : Codec) (t : Relation) (st : Store) : Prop where
  schema : Schema t
  rows : List.Forall₂ (fun row r => readable c t row = .ok r) t.rows st.rows

/-- The table has all columns, and its rows are those of the record store. -/
structure Current (c : Codec) (t : Relation) (st : Store) : Prop extends Holds c t st where
  full : ∀ column ∈ taskColumns, column ∈ t.columns

variable {t t' : Relation} {st st' : Store} {row : Row} {name : String}

theorem item_of_mem {name : String} (h : name ∈ names t.columns) :
    t.item row name = some (row name) :=
  if_pos h

namespace Current

variable (h : Current c t st)
include h

theorem mem_names {name : String} (hn : name ∈ names taskColumns) : name ∈ names t.columns := by
  obtain ⟨column, hc, rfl⟩ := List.mem_map.mp hn
  exact List.mem_map_of_mem (h.full column hc)

theorem readable_eq (row : Row) : readable c t row = rowToRecord c fun name => some (row name) :=
  rowToRecord_congr fun name hn => by rw [item_of_mem (h.mem_names hn), Option.some_or]

theorem rowToRecord_item (row : Row) : rowToRecord c (t.item row) = readable c t row := by
  rw [h.readable_eq]
  exact rowToRecord_congr fun name hn => item_of_mem (h.mem_names hn)

end Current

theorem Current.cells (h : Current c t st) (hr : readable c t row = .ok r) :
    Cells (fun name => some (row name)) r :=
  cells_of_rowToRecord ((h.readable_eq row).symm.trans hr)

theorem equals_text (s s' : Text) : (Value.text s).equals (.text s') = decide (s = s') := by
  simp [Value.equals, Value.held]

theorem equals_textOrNull (s s' : Option Text) :
    (textOrNull s).equals (textOrNull s') = decide (s ≠ none ∧ s = s') := by
  cases s <;> cases s' <;> simp [Value.equals, Value.held, textOrNull]

section Conditions

variable (h : Current c t st) (hr : readable c t row = .ok r)
include h hr

theorem equals_taskId (taskId : String) :
    (row "task_id").equals (.text taskId.toList) = decide (r.taskId = taskId) := by
  rw [Option.some.inj (h.cells hr).taskId, equals_text]
  simp only [String.toList_inj]

theorem equals_workerId (workerId : String) :
    (row "worker_id").equals (.text workerId.toList) = decide (r.workerId = workerId) := by
  rw [Option.some.inj (h.cells hr).workerId, equals_text]
  simp only [String.toList_inj]

theorem equals_idempotencyKey (key : Option String) :
    (row "idempotency_key").equals (textOrNull (key.map String.toList)) =
      decide (r.idempotencyKey ≠ none ∧ r.idempotencyKey = key) := by
  rw [Option.some.inj (h.cells hr).idempotencyKey, equals_textOrNull]
  cases r.idempotencyKey <;> cases key <;> simp [String.toList_inj]

theorem inStates_eq (states : List TaskState) :
    inStates states row = decide (r.state ∈ states) := by
  have hvalue : ∀ s : TaskState, (row "state").equals (.text s.value.toList) = decide (r.state = s) := by
    intro s
    rw [Option.some.inj (h.cells hr).state, equals_text]
    cases r.state <;> cases s <;> decide
  unfold inStates
  simp only [hvalue]
  rw [Bool.eq_iff_iff, List.any_eq_true, decide_eq_true_iff]
  constructor
  · rintro ⟨s, hs, he⟩
    rwa [of_decide_eq_true he]
  · exact fun hs => ⟨r.state, hs, decide_eq_true rfl⟩

end Conditions

theorem Current.filter (h : Current c t st) {p : Row → Bool} {q : TaskRecord → Bool}
    (hpq : ∀ row r, readable c t row = .ok r → p row = q r) :
    List.Forall₂ (fun row r => readable c t row = .ok r) (t.rows.filter p) (st.rows.filter q) :=
  List.rel_filter (fun row r hr => iff_of_eq (congrArg (· = true) (hpq row r hr))) h.rows

theorem fetchOne_eq (h : Current c t st) {rows : List Row} {rs : List TaskRecord}
    (hrows : List.Forall₂ (fun row r => readable c t row = .ok r) rows rs) :
    fetchOne c t rows = .ok rs.head? := by
  cases hrows with
  | nil => rfl
  | @cons row r _ _ hr _ =>
    refine (congrArg (Except.map some) ((h.rowToRecord_item row).trans hr)).trans ?_
    rfl

theorem mapM_rowToRecord (h : Current c t st) {rows : List Row} {rs : List TaskRecord}
    (hrows : List.Forall₂ (fun row r => readable c t row = .ok r) rows rs) :
    rows.mapM (fun row => rowToRecord c (t.item row)) = .ok rs := by
  induction hrows with
  | nil => rfl
  | cons hr _ ih =>
    rw [List.mapM_cons, ih, h.rowToRecord_item, hr]
    rfl

theorem countP_rows (h : Current c t st) {p : Row → Bool} {q : TaskRecord → Bool}
    (hpq : ∀ row r, readable c t row = .ok r → p row = q r) : t.rows.countP p = st.rows.countP q := by
  rw [List.countP_eq_length_filter, List.countP_eq_length_filter]
  exact (h.filter hpq).length_eq

variable {db : Database}

theorem get_eq (ht : db.tables "tasks" = some t) (h : Current c t st) (taskId : String) :
    get c db taskId = .ok (st.get taskId) := by
  unfold get tasks
  rw [ht]
  refine (fetchOne_eq h (h.filter fun row r hr => equals_taskId h hr taskId)).trans ?_
  rw [List.head?_filter]
  rfl

theorem getByIdempotencyKey_eq (ht : db.tables "tasks" = some t) (h : Current c t st) (key : String) :
    getByIdempotencyKey c db key = .ok (st.getByIdempotencyKey key) := by
  have hkey : ∀ row r, readable c t row = .ok r →
      (row "idempotency_key").equals (.text key.toList) = decide (r.idempotencyKey = some key) := by
    intro row r hr
    rw [show Value.text key.toList = textOrNull ((some key).map String.toList) from rfl,
      equals_idempotencyKey h hr]
    cases r.idempotencyKey <;> simp
  unfold getByIdempotencyKey tasks
  rw [ht]
  refine (fetchOne_eq h (h.filter hkey)).trans ?_
  rw [List.head?_filter]
  rfl

theorem listByStates_eq (ht : db.tables "tasks" = some t) (h : Current c t st)
    {arrange : List Row → List Row} (ha : ∀ rows, (arrange rows).Perm rows) (states : List TaskState) :
    ∃ rs, listByStates c arrange db states = .ok rs ∧ rs.Perm (st.listByStates states) := by
  unfold listByStates
  split
  · next hempty =>
    refine ⟨[], rfl, ?_⟩
    rw [List.isEmpty_iff.mp hempty]
    unfold Store.listByStates
    simp
  · have hrows := h.filter fun row r hr => inStates_eq h hr states
    obtain ⟨rs, hrs, hperm⟩ := List.perm_comp_forall₂ (ha _) hrows
    refine ⟨rs, ?_, hperm⟩
    unfold tasks
    rw [ht]
    exact mapM_rowToRecord h hrs

theorem countByStates_eq (ht : db.tables "tasks" = some t) (h : Current c t st)
    (states : List TaskState) (workerId : Option String) :
    countByStates db states workerId = .ok (st.countByStates states workerId) := by
  unfold countByStates
  split
  · next hempty =>
    rw [List.isEmpty_iff.mp hempty]
    cases workerId <;> simp [Store.countByStates]
  · unfold tasks
    rw [ht]
    cases workerId with
    | none => exact congrArg Except.ok (countP_rows h fun row r hr => inStates_eq h hr states)
    | some workerId =>
      refine congrArg Except.ok (countP_rows h fun row r hr => ?_)
      rw [inStates_eq h hr, equals_workerId h hr]

/-- The same outcome of a statement and of the record store. -/
def Matches (c : Codec) : Except Error Relation → Except PyExc Store → Prop
  | .ok t, .ok st => Current c t st
  | .error e, .error exc => pyExc e = exc
  | _, _ => False

theorem readable_of_columns (h : t'.columns = t.columns) : readable c t' = readable c t := by
  unfold readable Relation.item
  rw [h]

theorem Current.write (h : Current c t st) (hcolumns : t'.columns = t.columns)
    (hrows : List.Forall₂ (fun row r => readable c t row = .ok r) t'.rows st'.rows) :
    Current c t' st' where
  schema := by
    obtain ⟨hknown, hbase, hkeys⟩ := h.schema
    exact ⟨hcolumns ▸ hknown, hcolumns ▸ hbase, hcolumns ▸ hkeys⟩
  rows := by
    rw [readable_of_columns hcolumns]
    exact hrows
  full := hcolumns ▸ h.full

theorem any_eq {rows : List Row} {rs : List TaskRecord} {p : Row → Bool} {q : TaskRecord → Bool}
    (hrows : List.Forall₂ (fun row r => readable c t row = .ok r) rows rs)
    (hpq : ∀ row r, readable c t row = .ok r → p row = q r) : rows.any p = rs.any q := by
  induction hrows with
  | nil => rfl
  | cons hr _ ih => rw [List.any_cons, List.any_cons, hpq _ _ hr, ih]

theorem exists_row {rows : List Row} {rs : List TaskRecord}
    (hrows : List.Forall₂ (fun row r => readable c t row = .ok r) rows rs) (hr : r ∈ rs) :
    ∃ row ∈ rows, readable c t row = .ok r := by
  induction hrows with
  | nil => cases hr
  | cons hread _ ih =>
    rcases List.mem_cons.mp hr with rfl | hr
    · exact ⟨_, List.mem_cons_self, hread⟩
    · obtain ⟨row, hrow, hread⟩ := ih hr
      exact ⟨row, List.mem_cons_of_mem _ hrow, hread⟩

section Params

variable (h : Current c t st)
include h

theorem unknown_params : unknown t.columns ((params c task).map Prod.fst) = none := by
  rw [map_fst_params]
  unfold unknown
  rw [List.find?_eq_none]
  intro name hn hnot
  exact of_decide_eq_true hnot (h.mem_names hn)

theorem complete_params {name : String} {value : Value} (hp : (name, value) ∈ params c task) :
    complete t.columns (params c task) name = value := by
  have hn : name ∈ names taskColumns := List.mem_map_of_mem (f := Prod.fst) hp
  obtain ⟨column, hc, rfl⟩ := List.mem_map.mp (h.mem_names hn)
  have hlookup : (params c task).lookup column.name = some value :=
    Relation.lookup_of_mem names_taskColumns hp
  rw [Relation.complete_apply t.named hc, hlookup, Option.getD_some]

theorem complete_filled (column : Column) (hc : column ∈ t.columns) (hnull : column.notNull = true) :
    (complete t.columns (params c task) column.name).held ≠ none := by
  have hall : ∀ column ∈ taskColumns, column.notNull = true →
      ∃ value, (column.name, value) ∈ params c task ∧ value.held ≠ none := by
    simp [taskColumns, params, Value.held]
  obtain ⟨value, hp, hheld⟩ := hall column (h.schema.known column hc) hnull
  rw [complete_params h hp]
  exact hheld

theorem readable_complete (hs : Storable c task) :
    readable c t (complete t.columns (params c task)) = .ok task := by
  rw [h.readable_eq]
  exact rowToRecord_of hs fun name value hp => congrArg some (complete_params h hp)

theorem complete_taskId :
    complete t.columns (params c task) "task_id" = .text task.taskId.toList :=
  complete_params h (by simp [params])

theorem complete_idempotencyKey : complete t.columns (params c task) "idempotency_key" =
    textOrNull (task.idempotencyKey.map String.toList) :=
  complete_params h (by simp [params])

theorem taskKey : ∃ column ∈ t.columns, column.name = "task_id" ∧ column.unique = true :=
  ⟨⟨"task_id", false, true, .null⟩, h.full _ (by decide), rfl, rfl⟩

end Params

theorem violation_eq (h : Current c t st) (hfilled : ∀ column ∈ t.columns, column.notNull = true →
    (row column.name).held ≠ none) {others : List Row} {rs : List TaskRecord}
    (hothers : List.Forall₂ (fun row r => readable c t row = .ok r) others rs)
    (hid : row "task_id" = .text task.taskId.toList)
    (hkey : row "idempotency_key" = textOrNull (task.idempotencyKey.map String.toList)) :
    violation t.columns others row =
      if rs.any (fun r => decide (r.taskId = task.taskId)) then some (.unique "task_id")
      else if rs.any (fun r => decide (r.idempotencyKey ≠ none ∧
          r.idempotencyKey = task.idempotencyKey)) then some (.unique "idempotency_key")
      else none := by
  have hids := any_eq hothers fun row r hr => equals_taskId h hr task.taskId
  have hkeys := any_eq hothers fun row r hr => equals_idempotencyKey h hr task.idempotencyKey
  rw [violation_of_filled hfilled, h.schema.keys, ← hids, ← hkeys, ← hid, ← hkey]
  simp only [List.find?_cons, List.find?_nil]
  split
  · next hclash => rw [if_pos hclash, Option.map_some]
  · next hfree =>
    rw [hfree, if_neg Bool.false_ne_true]
    split
    · next hclash => rw [if_pos hclash, Option.map_some]
    · next hfree => rw [hfree, if_neg Bool.false_ne_true, Option.map_none]

theorem violation_complete (h : Current c t st) (task : TaskRecord) {others : List Row}
    {rs : List TaskRecord}
    (hothers : List.Forall₂ (fun row r => readable c t row = .ok r) others rs) :
    violation t.columns others (complete t.columns (params c task)) =
      if rs.any (fun r => decide (r.taskId = task.taskId)) then some (.unique "task_id")
      else if rs.any (fun r => decide (r.idempotencyKey ≠ none ∧
          r.idempotencyKey = task.idempotencyKey)) then some (.unique "idempotency_key")
      else none :=
  violation_eq h (complete_filled h) hothers (complete_taskId h) (complete_idempotencyKey h)

theorem insert_matches (h : Current c t st) (hs : Storable c task) :
    Matches c (t.insert (params c task)) (st.insert task) := by
  have hviolation := violation_complete h task h.rows
  unfold Store.insert
  split
  · next hget =>
    have hnew : ∀ r ∈ st.rows, r.taskId ≠ task.taskId := Table.find_eq_none.mp hget
    rw [if_neg (by simpa using hnew)] at hviolation
    split
    · next htaken =>
      obtain ⟨r, hr, -, hne, he⟩ := htaken
      rw [if_pos (List.any_eq_true.mpr ⟨r, hr, decide_eq_true ⟨he ▸ hne, he⟩⟩)] at hviolation
      rw [Relation.insert_refused (unknown_params h) hviolation]
      rfl
    · next hfree =>
      rw [if_neg] at hviolation
      · obtain ⟨t', ht', hcolumns, hrows⟩ := Relation.insert_accepted (unknown_params h) hviolation
        rw [ht']
        refine h.write hcolumns ?_
        rw [hrows]
        exact List.rel_append h.rows (.cons (readable_complete h hs) .nil)
      · rw [List.any_eq_true]
        rintro ⟨r, hr, he⟩
        rw [decide_eq_true_iff] at he
        exact hfree ⟨r, hr, hnew r hr, he.2 ▸ he.1, he.2⟩
  · next hget =>
    obtain ⟨r, hr⟩ := Option.ne_none_iff_exists'.mp hget
    obtain ⟨hmem, hid⟩ := Store.mem_of_get hr
    rw [if_pos (List.any_eq_true.mpr ⟨r, hmem, decide_eq_true hid⟩)] at hviolation
    rw [Relation.insert_refused (unknown_params h) hviolation]
    rfl

theorem mem_params_merged {created : String} {p : String × Value}
    (hp : p ∈ params c { task with createdAt := created }) :
    p ∈ params c task ∧ p.1 ∈ setColumns ∨ p = ("task_id", .text task.taskId.toList) ∨
      p = ("created_at", .text created.toList) := by
  simp only [params, List.mem_cons, List.not_mem_nil, or_false] at hp
  rcases hp with rfl | rfl | rfl | rfl | rfl | rfl | rfl | rfl | rfl | rfl | rfl | rfl | rfl | rfl |
    rfl <;> simp [params, setColumns]

section Merged

variable {old : TaskRecord} (h : Current c t st) (hold : readable c t row = .ok old)
  (hid : old.taskId = task.taskId)
include h hold hid

theorem merge_params {name : String} {value : Value}
    (hp : (name, value) ∈ params c { task with createdAt := old.createdAt }) :
    Relation.merge setColumns row (complete t.columns (params c task)) name = value := by
  unfold Relation.merge
  rcases mem_params_merged hp with ⟨hmem, hset⟩ | he | he
  · rw [if_pos hset]
    exact complete_params h hmem
  · cases he
    rw [if_neg (by decide), Option.some.inj (h.cells hold).taskId, hid]
  · cases he
    rw [if_neg (by decide), Option.some.inj (h.cells hold).createdAt]

theorem readable_merge (hs : Storable c task) :
    readable c t (Relation.merge setColumns row (complete t.columns (params c task))) =
      .ok { task with createdAt := old.createdAt } := by
  rw [h.readable_eq]
  exact rowToRecord_of hs fun name value hp => congrArg some (merge_params h hold hid hp)

omit hold hid in
theorem merge_filled (hrow : row ∈ t.rows) (column : Column) (hc : column ∈ t.columns)
    (hnull : column.notNull = true) :
    (Relation.merge setColumns row (complete t.columns (params c task)) column.name).held ≠ none := by
  unfold Relation.merge
  split
  · exact complete_filled h column hc hnull
  · exact t.filled row hrow column hc hnull

theorem held_taskId_iff {item : Row} (hr : readable c t item = .ok r) :
    (item "task_id").held = (row "task_id").held ↔ r.taskId = task.taskId := by
  rw [Option.some.inj (h.cells hr).taskId, Option.some.inj (h.cells hold).taskId]
  simp [Value.held, String.toList_inj, hid]

theorem violation_merge (hrow : row ∈ t.rows) :
    violation t.columns (t.rows.filter fun r => decide ((r "task_id").held ≠ (row "task_id").held))
        (Relation.merge setColumns row (complete t.columns (params c task))) =
      if st.KeyTaken task then some (.unique "idempotency_key") else none := by
  have hothers : List.Forall₂ (fun row r => readable c t row = .ok r)
      (t.rows.filter fun r => decide ((r "task_id").held ≠ (row "task_id").held))
      (st.rows.filter fun r => decide (r.taskId ≠ task.taskId)) :=
    h.filter fun row' r hr => decide_eq_decide.mpr (not_congr (held_taskId_iff h hold hid hr))
  have hmergedId : Relation.merge setColumns row (complete t.columns (params c task)) "task_id" =
      .text task.taskId.toList := merge_params h hold hid (by simp [params])
  have hmergedKey : Relation.merge setColumns row (complete t.columns (params c task))
      "idempotency_key" = textOrNull (task.idempotencyKey.map String.toList) :=
    merge_params h hold hid (by simp [params])
  rw [violation_eq h (merge_filled h hrow) hothers hmergedId hmergedKey, if_neg (by simp)]
  refine if_congr ?_ rfl rfl
  rw [List.any_eq_true]
  constructor
  · rintro ⟨r, hr, he⟩
    obtain ⟨hr, hne⟩ := List.mem_filter.mp hr
    rw [decide_eq_true_iff] at he hne
    exact ⟨r, hr, hne, he.2 ▸ he.1, he.2⟩
  · rintro ⟨r, hr, hne, hsome, he⟩
    exact ⟨r, List.mem_filter.mpr ⟨hr, decide_eq_true hne⟩, decide_eq_true ⟨he ▸ hsome, he⟩⟩

theorem upsert_old_matches (hget : st.get task.taskId = some old) (hrow : row ∈ t.rows)
    (hs : Storable c task) :
    Matches c (t.upsert "task_id" setColumns (params c task)) (st.upsert task) := by
  have hfull := violation_complete h task .nil
  have hsame : (row "task_id").equals (complete t.columns (params c task) "task_id") = true := by
    rw [complete_taskId h, equals_taskId h hold]
    exact decide_eq_true hid
  have hviolation := violation_merge h hold hid hrow
  unfold Store.upsert
  simp only [hget]
  split
  · next htaken =>
    rw [if_pos htaken] at hviolation
    rw [Relation.upsert_refused (taskKey h) (unknown_params h) hfull hrow hsame hviolation]
    rfl
  · next hfree =>
    rw [if_neg hfree] at hviolation
    obtain ⟨t', ht', hcolumns, hrows⟩ := Relation.upsert_accepted (taskKey h)
      (unknown_params h) hfull hrow hsame hviolation
    rw [ht']
    refine h.write hcolumns ?_
    rw [hrows]
    unfold Table.replace
    rw [List.forall₂_map_left_iff, List.forall₂_map_right_iff]
    refine h.rows.imp fun row' r hr => ?_
    have hiff := held_taskId_iff h hold hid hr
    by_cases hrid : r.taskId = task.taskId
    · rw [if_pos (hiff.mpr hrid), if_pos hrid]
      exact readable_merge h hold hid hs
    · rw [if_neg (fun he => hrid (hiff.mp he)), if_neg hrid]
      exact hr

end Merged

theorem upsert_matches (h : Current c t st) (hs : Storable c task) :
    Matches c (t.upsert "task_id" setColumns (params c task)) (st.upsert task) := by
  cases hget : st.get task.taskId with
  | none =>
    have hfull := violation_complete h task .nil
    rw [Store.upsert_of_get_none hget, Relation.upsert_new (taskKey h) (unknown_params h) hfull]
    · exact insert_matches h hs
    · have hnone : st.rows.any (fun r => decide (r.taskId = task.taskId)) = false :=
        List.any_eq_false.mpr fun r hr hne =>
          Table.find_eq_none.mp hget r hr (of_decide_eq_true hne)
      rw [← any_eq h.rows fun row r hr => equals_taskId h hr task.taskId, List.any_eq_false] at hnone
      intro r hr
      rw [complete_taskId h]
      exact Bool.eq_false_iff.mpr (hnone r hr)
  | some old =>
    obtain ⟨hmem, hid⟩ := Store.mem_of_get hget
    obtain ⟨row, hrow, hread⟩ := exists_row h.rows hmem
    exact upsert_old_matches h hread hid hget hrow hs

end Sqlite

end WorkerBridge
