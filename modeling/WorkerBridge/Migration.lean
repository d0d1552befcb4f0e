import WorkerBridge.Persistence

namespace WorkerBridge

namespace Sqlite

open Sql

variable {c : Codec} {db db' : Database} {st : Store} {t t' : Relation} {columns : List Column}

/-- A database without the table, or with one that may lack added columns. -/
def Older (c : Codec) (db : Database) (st : Store) : Prop :=
  match db.tables "tasks" with
  | none => st.rows = []
  | some t => Holds c t st

/-- A database that a new store works with. -/
structure Ready (c : Codec) (db : Database) (st : Store) : Prop where
  current : ∃ t, db.tables "tasks" = some t ∧ Current c t st
  indexed : ∀ index ∈ ["idx_tasks_state", "idx_tasks_worker", "idx_tasks_worker_state"],
    index ∈ db.indexes

theorem Older.holds (h : Older c db st) (ht : db.tables "tasks" = some t) : Holds c t st := by
  unfold Older at h
  rwa [ht] at h

theorem older_of_holds (ht : db.tables "tasks" = some t) (h : Holds c t st) : Older c db st := by
  unfold Older
  rwa [ht]

theorem initialOf_added {column : Column} (h : column ∈ addedColumns) :
    initialOf column.name = some column.initial := by
  revert column
  decide

theorem unique_added {column : Column} (h : column ∈ addedColumns) : column.unique = false := by
  revert column
  decide

theorem initial_added {column : Column} (h : column ∈ addedColumns) (hnull : column.notNull = true) :
    column.initial.held ≠ none := by
  revert column
  decide

theorem added_subset {column : Column} (h : column ∈ addedColumns) : column ∈ taskColumns := by
  revert column
  decide

theorem readable_addColumn {column : Column} (hc : column ∈ addedColumns)
    (hname : column.name ∉ names t.columns) (hcolumns : t'.columns = t.columns ++ [column])
    (row : Row) :
    readable c t' (Function.update row column.name column.initial) = readable c t row := by
  refine rowToRecord_congr fun name _ => ?_
  unfold Relation.item
  rw [hcolumns, names, List.map_append, List.map_singleton]
  by_cases he : name = column.name
  · subst he
    rw [if_pos (List.mem_append_right _ List.mem_cons_self), Function.update_self, Option.some_or,
      if_neg hname, Option.none_or, initialOf_added hc]
  · rw [Function.update_of_ne he]
    congr 1
    refine if_congr ?_ rfl rfl
    rw [List.mem_append, List.mem_singleton, or_iff_left he]
    rfl

theorem Holds.addColumn {column : Column} (h : Holds c t st) (hc : column ∈ addedColumns)
    (hadd : t.addColumn column = .ok t') : Holds c t' st := by
  obtain ⟨hname, hcolumns, hrows⟩ := Relation.addColumn_rows hadd
  refine ⟨⟨?_, ?_, ?_⟩, ?_⟩
  · intro d hd
    rw [hcolumns] at hd
    rcases List.mem_append.mp hd with hold | hnew
    · exact h.schema.known d hold
    · rw [List.mem_singleton.mp hnew]
      exact added_subset hc
  · intro d hd
    rw [hcolumns]
    exact (h.schema.base d hd).imp_left (List.mem_append_left _)
  · rw [hcolumns, List.filter_append, List.filter_singleton, unique_added hc]
    simpa using h.schema.keys
  · rw [hrows, List.forall₂_map_left_iff]
    exact h.rows.imp fun row r hr => (readable_addColumn hc hname hcolumns row).trans hr

theorem run_addColumns (ht : db.tables "tasks" = some t) (h : Holds c t st)
    (hadded : ∀ column ∈ columns, column ∈ addedColumns) (hnodup : (names columns).Nodup)
    (hnew : ∀ column ∈ columns, column.name ∉ names t.columns) :
    ∃ db' t', db.run (columns.map fun column => .addColumn "tasks" column) = .ok db' ∧
      db'.tables "tasks" = some t' ∧ Holds c t' st ∧ t'.columns = t.columns ++ columns ∧
      (∀ table, table ≠ "tasks" → db'.tables table = db.tables table) ∧
      db'.indexes = db.indexes := by
  induction columns generalizing db t with
  | nil => exact ⟨db, t, rfl, ht, h, (List.append_nil _).symm, fun _ _ => rfl, rfl⟩
  | cons column rest ih =>
    have hc := hadded column List.mem_cons_self
    have hname := hnew column List.mem_cons_self
    obtain ⟨t₁, ht₁⟩ := Relation.exists_addColumn hname (unique_added hc) (initial_added hc)
    have hholds := h.addColumn hc ht₁
    obtain ⟨-, hcolumns, -⟩ := Relation.addColumn_rows ht₁
    obtain ⟨hfirst, hrest⟩ := List.nodup_cons.mp hnodup
    obtain ⟨db', t', hrun, ht', hholds', hcolumns', hother, hindexes⟩ :=
      ih (Database.put_self t₁) hholds (fun d hd => hadded d (List.mem_cons_of_mem _ hd)) hrest
        (by
          intro d hd
          rw [hcolumns, names, List.map_append, List.mem_append, not_or]
          refine ⟨hnew d (List.mem_cons_of_mem _ hd), fun he => hfirst ?_⟩
          rw [List.map_singleton, List.mem_singleton] at he
          exact he ▸ List.mem_map_of_mem hd)
    refine ⟨db', t', ?_, ht', hholds', ?_, ?_, hindexes⟩
    · rw [List.map_cons, Database.run]
      have hexec : db.exec (.addColumn "tasks" column) = .ok (db.put "tasks" t₁) :=
        Database.on_ok ht ht₁
      rw [hexec]
      exact hrun
    · rw [hcolumns', hcolumns, List.append_assoc]
      rfl
    · intro table hne
      rw [hother table hne, Database.put_other hne]

/-- The index of a statement, which is on columns that no version lacks. -/
def Statement.Indexes (index : String) (statement : Statement) : Prop :=
  ∃ columns, statement = .createIndex index "tasks" columns ∧
    ∀ name ∈ columns, name = "state" ∨ name = "worker_id"

theorem unknown_indexed (h : Schema t) {columns : List String}
    (hc : ∀ name ∈ columns, name = "state" ∨ name = "worker_id") :
    unknown t.columns columns = none := by
  unfold unknown
  rw [List.find?_eq_none]
  intro name hn hnot
  refine of_decide_eq_true hnot ?_
  rcases hc name hn with rfl | rfl
  · exact List.mem_map_of_mem
      ((h.base ⟨"state", true, false, .null⟩ (by decide)).resolve_right (by decide))
  · exact List.mem_map_of_mem
      ((h.base ⟨"worker_id", true, false, .null⟩ (by decide)).resolve_right (by decide))

theorem run_createIndexes {statements : List Statement} {indexes : List String}
    (h : List.Forall₂ (fun index statement => Statement.Indexes index statement) indexes statements)
    (ht : db.tables "tasks" = some t) (hs : Schema t) :
    ∃ db', db.run statements = .ok db' ∧ db'.tables = db.tables ∧
      (∀ index ∈ indexes, index ∈ db'.indexes) ∧ ∀ index ∈ db.indexes, index ∈ db'.indexes := by
  induction h generalizing db with
  | nil => exact ⟨db, rfl, rfl, List.forall_mem_nil _, fun _ hi => hi⟩
  | @cons index statement _ _ hindex _ ih =>
    obtain ⟨columns, rfl, hc⟩ := hindex
    obtain ⟨db₁, hexec, htables, hnew, hold⟩ :=
      Database.exec_createIndex index ht (unknown_indexed hs hc)
    obtain ⟨db', hrun, htables', hall, hkeep⟩ := ih (htables ▸ ht)
    refine ⟨db', ?_, htables'.trans htables, ?_, fun i hi => hkeep i (hold i hi)⟩
    · rw [Database.run, hexec]
      exact hrun
    · exact List.forall_mem_cons.mpr ⟨hkeep index hnew, hall⟩

theorem createIndexes_index : List.Forall₂ (fun index statement => Statement.Indexes index statement)
    ["idx_tasks_state", "idx_tasks_worker", "idx_tasks_worker_state"] createIndexes := by
  refine .cons ⟨_, rfl, ?_⟩ (.cons ⟨_, rfl, ?_⟩ (.cons ⟨_, rfl, ?_⟩ .nil)) <;> simp

theorem exec_createTable (h : Older c db st) :
    ∃ db' t, db.exec (.createTable "tasks" taskColumns) = .ok db' ∧
      db'.tables "tasks" = some t ∧ Holds c t st ∧ names t.columns = tableInfo db ∧
      (∀ table, table ≠ "tasks" → db'.tables table = db.tables table) ∧
      db'.indexes = db.indexes := by
  unfold tableInfo
  cases ht : db.tables "tasks" with
  | some t => exact ⟨db, t, Database.exec_createTable_old ht, ht, h.holds ht, rfl, fun _ _ => rfl, rfl⟩
  | none =>
    unfold Older at h
    rw [ht] at h
    obtain ⟨t, hexec, hcolumns, hrows⟩ := Database.exec_createTable_new ht names_taskColumns
    refine ⟨_, t, hexec, Database.put_self t, ⟨⟨?_, ?_, ?_⟩, ?_⟩, ?_, ?_, rfl⟩
    · exact fun _ hc => hcolumns ▸ hc
    · exact fun _ hc => Or.inl (hcolumns ▸ hc)
    · rw [hcolumns]
      rfl
    · rw [hrows, h]
      exact .nil
    · rw [hcolumns]
    · exact fun table hne => Database.put_other hne t

/-- The columns that `_init_db` finds missing. -/
def missing (db : Database) : List Column :=
  addedColumns.filter fun column => decide (column.name ∉ tableInfo db)

theorem initScript_eq (db : Database) : initScript db = .createTable "tasks" taskColumns ::
    ((missing db).map fun column => .addColumn "tasks" column) ++ createIndexes := rfl

theorem mem_of_name_mem (h : Schema t) {column : Column} (hc : column ∈ taskColumns)
    (hname : column.name ∈ names t.columns) : column ∈ t.columns := by
  obtain ⟨d, hd, he⟩ := List.mem_map.mp hname
  rwa [← List.inj_on_of_nodup_map names_taskColumns (h.known d hd) hc he]

theorem run_take (h : Older c db st) (n : ℕ) :
    ∃ db' t, db.run ((initScript db).take (n + 1)) = .ok db' ∧ db'.tables "tasks" = some t ∧
      Holds c t st ∧ (∀ table, table ≠ "tasks" → db'.tables table = db.tables table) ∧
      ((initScript db).length ≤ n + 1 → Ready c db' st) := by
  obtain ⟨db₁, t₁, hexec, ht₁, hholds₁, hnames, hother₁, -⟩ := exec_createTable h
  have hmissing : ∀ column ∈ (missing db).take n,
      column ∈ addedColumns ∧ column.name ∉ names t₁.columns := by
    intro column hc
    obtain ⟨hadded, hname⟩ := List.mem_filter.mp (List.mem_of_mem_take hc)
    exact ⟨hadded, hnames ▸ of_decide_eq_true hname⟩
  have hnodup : (names ((missing db).take n)).Nodup := by
    have hall : (names addedColumns).Nodup := by decide
    exact hall.sublist (((List.take_sublist _ _).trans List.filter_sublist).map _)
  obtain ⟨db₂, t₂, hrun₂, ht₂, hholds₂, hcolumns, hother₂, -⟩ := run_addColumns ht₁ hholds₁
    (fun column hc => (hmissing column hc).1) hnodup fun column hc => (hmissing column hc).2
  obtain ⟨db₃, hrun₃, htables, hindexes, -⟩ := run_createIndexes
    (List.forall₂_take (n - (missing db).length) createIndexes_index) ht₂ hholds₂.schema
  refine ⟨db₃, t₂, ?_, htables ▸ ht₂, hholds₂, ?_, ?_⟩
  · rw [initScript_eq, List.cons_append, List.take_succ_cons, List.take_append, List.length_map,
      ← List.map_take, Database.run, hexec]
    refine (Database.run_append _ _ db₁).trans ?_
    rw [hrun₂]
    exact hrun₃
  · intro table hne
    rw [htables, hother₂ table hne, hother₁ table hne]
  · intro hlen
    rw [initScript_eq, List.cons_append, List.length_cons, List.length_append, List.length_map,
      show createIndexes.length = 3 from rfl] at hlen
    have htake : (missing db).take n = missing db := List.take_of_length_le (by omega)
    refine ⟨⟨t₂, htables ▸ ht₂, hholds₂, ?_⟩, ?_⟩
    · intro column hc
      rw [hcolumns, htake]
      rcases hholds₁.schema.base column hc with hold | hadded
      · exact List.mem_append_left _ hold
      · by_cases hname : column.name ∈ names t₁.columns
        · exact List.mem_append_left _ (mem_of_name_mem hholds₁.schema hc hname)
        · exact List.mem_append_right _
            (List.mem_filter.mpr ⟨hadded, decide_eq_true (hnames ▸ hname)⟩)
    · rwa [List.take_of_length_le (by simp; omega)] at hindexes

theorem crashedInit_older (h : Older c db st) (n : ℕ) :
    ∃ db', crashedInit db n = .ok db' ∧ Older c db' st ∧
      ∀ table, table ≠ "tasks" → db'.tables table = db.tables table := by
  cases n with
  | zero => exact ⟨db, rfl, h, fun _ _ => rfl⟩
  | succ n =>
    obtain ⟨db', t, hrun, ht, hholds, hother, -⟩ := run_take h n
    exact ⟨db', hrun, older_of_holds ht hholds, hother⟩

theorem initDb_ready (h : Older c db st) :
    ∃ db', initDb db = .ok db' ∧ Ready c db' st ∧
      ∀ table, table ≠ "tasks" → db'.tables table = db.tables table := by
  obtain ⟨db', t, hrun, -, -, hother, hready⟩ := run_take h (initScript db).length
  rw [List.take_of_length_le (Nat.le_succ _)] at hrun
  exact ⟨db', hrun, hready (Nat.le_succ _), hother⟩

theorem run_createIndexes_old {statements : List Statement} {indexes : List String}
    (h : List.Forall₂ (fun index statement => Statement.Indexes index statement) indexes statements)
    (hall : ∀ index ∈ indexes, index ∈ db.indexes) : db.run statements = .ok db := by
  induction h with
  | nil => rfl
  | cons hindex _ ih =>
    obtain ⟨columns, rfl, -⟩ := hindex
    obtain ⟨hfirst, hrest⟩ := List.forall_mem_cons.mp hall
    rw [Database.run, Database.exec_createIndex_old hfirst]
    exact ih hrest

theorem Ready.crashedInit_eq (h : Ready c db st) (n : ℕ) : crashedInit db n = .ok db := by
  obtain ⟨t, ht, hcurrent⟩ := h.current
  have hnone : missing db = [] := by
    refine List.filter_eq_nil_iff.mpr fun column hc hname => ?_
    refine of_decide_eq_true hname ?_
    unfold tableInfo
    rw [ht]
    exact List.mem_map_of_mem (hcurrent.full column (added_subset hc))
  unfold crashedInit
  rw [initScript_eq, hnone]
  cases n with
  | zero => rfl
  | succ n =>
    rw [List.map_nil, List.cons_append, List.nil_append, List.take_succ_cons, Database.run,
      Database.exec_createTable_old ht]
    exact run_createIndexes_old (List.forall₂_take n createIndexes_index) fun index hi =>
      h.indexed index (List.mem_of_mem_take hi)

theorem Ready.initDb_eq (h : Ready c db st) : initDb db = .ok db := by
  have hinit := h.crashedInit_eq (initScript db).length
  unfold crashedInit at hinit
  rwa [List.take_length] at hinit

theorem Ready.reopen_eq (h : Ready c db st) (crashes : List ℕ) : reopen db crashes = .ok db := by
  induction crashes with
  | nil => exact h.initDb_eq
  | cons n crashes ih =>
    rw [reopen, h.crashedInit_eq]
    exact ih

theorem reopen_ready (h : Older c db st) (crashes : List ℕ) :
    ∃ db', reopen db crashes = .ok db' ∧ Ready c db' st ∧
      ∀ table, table ≠ "tasks" → db'.tables table = db.tables table := by
  induction crashes generalizing db with
  | nil => exact initDb_ready h
  | cons n crashes ih =>
    obtain ⟨db₁, hcrash, holder, hother₁⟩ := crashedInit_older h n
    obtain ⟨db', hopen, hready, hother⟩ := ih holder
    refine ⟨db', ?_, hready, fun table hne => (hother table hne).trans (hother₁ table hne)⟩
    rw [reopen, hcrash]
    exact hopen

/-- What a record has where the table of its row has no such column. -/
structure Defaults (t : Relation) (r : TaskRecord) : Prop where
  workingDirectory : "working_directory" ∉ names t.columns → r.workingDirectory = none
  dispatchAttemptId : "dispatch_attempt_id" ∉ names t.columns → r.dispatchAttemptId = none
  attemptCount : "attempt_count" ∉ names t.columns → r.attemptCount = 0

theorem Holds.defaults (h : Holds c t st) {r : TaskRecord} (hr : r ∈ st.rows) : Defaults t r := by
  obtain ⟨row, -, hread⟩ := exists_row h.rows hr
  have hcells := cells_of_rowToRecord hread
  have hitem : ∀ name, name ∉ names t.columns → t.item row name = none := fun name hn => if_neg hn
  constructor
  · intro hn
    have hcell := hcells.workingDirectory
    rw [hitem _ hn] at hcell
    cases hdir : r.workingDirectory with
    | none => rfl
    | some directory =>
      rw [hdir] at hcell
      cases hcell
  · intro hn
    have hcell := hcells.dispatchAttemptId
    rw [hitem _ hn] at hcell
    cases hid : r.dispatchAttemptId with
    | none => rfl
    | some attemptId =>
      rw [hid] at hcell
      cases hcell
  · intro hn
    have hcell := hcells.attemptCount
    rw [hitem _ hn] at hcell
    have hcount := Option.some.inj hcell
    injection hcount with hcount
    exact (Int.natCast_eq_zero.mp hcount.symm)

/-- However often processes die in `_init_db`, the next one that comes to its end leaves a
table with all columns and indexes and the same records; the new columns have their
defaults, other tables are not touched, and to open the database again changes nothing. -/
theorem init_db_migrates (h : Older c db st) (crashes : List ℕ) :
    ∃ db', reopen db crashes = .ok db' ∧ Ready c db' st ∧
      (∀ t, db.tables "tasks" = some t → ∀ r ∈ st.rows, Defaults t r) ∧
      (∀ table, table ≠ "tasks" → db'.tables table = db.tables table) ∧
      ∀ later, reopen db' later = .ok db' := by
  obtain ⟨db', hopen, hready, hother⟩ := reopen_ready h crashes
  exact ⟨db', hopen, hready, fun t ht r hr => (h.holds ht).defaults hr, hother, hready.reopen_eq⟩

namespace Sample

def codec : Codec := ⟨fun _ => "{}".toList, fun _ => .ok (.obj [])⟩

def olderColumns : List Column :=
  taskColumns.filter fun column => decide (column.name ∉ names addedColumns)

def interrupted : TaskRecord :=
  { TaskRecord.new "a" "w" "run".toList none (some "k") 30 "t0" with
    state := .running
    updatedAt := "t1"
    startedAt := some "t1" }

def olderRow : Row :=
  complete olderColumns ((params codec interrupted).filter fun p =>
    decide (p.1 ∈ names olderColumns))

def olderTable : Relation where
  columns := olderColumns
  rows := [olderRow]
  named := by decide
  filled := by decide
  distinct := fun _ _ _ => List.pairwise_singleton _ _

def olderDatabase : Database := Database.empty.put "tasks" olderTable

def olderStore : Store := ⟨[interrupted], List.pairwise_singleton _ _, List.pairwise_singleton _ _⟩

theorem storable_interrupted : Storable codec interrupted := by
  intro v hv
  cases hv

theorem older : Older codec olderDatabase olderStore := by
  refine older_of_holds (Database.put_self _) ⟨⟨by decide, by decide, by decide⟩, .cons ?_ .nil⟩
  refine rowToRecord_of storable_interrupted fun name value hp => ?_
  simp only [params, List.mem_cons, Prod.mk.injEq, List.not_mem_nil, or_false] at hp
  rcases hp with ⟨rfl, rfl⟩ | ⟨rfl, rfl⟩ | ⟨rfl, rfl⟩ | ⟨rfl, rfl⟩ | ⟨rfl, rfl⟩ | ⟨rfl, rfl⟩ |
    ⟨rfl, rfl⟩ | ⟨rfl, rfl⟩ | ⟨rfl, rfl⟩ | ⟨rfl, rfl⟩ | ⟨rfl, rfl⟩ | ⟨rfl, rfl⟩ | ⟨rfl, rfl⟩ |
    ⟨rfl, rfl⟩ | ⟨rfl, rfl⟩ <;> rfl

end Sample

/-- A task that was running when the version changed, and two processes that died. -/
theorem init_db_migrates_interrupted :
    ∃ db', reopen Sample.olderDatabase [2, 4] = .ok db' ∧ Ready Sample.codec db' Sample.olderStore ∧
      reopen db' [3] = .ok db' := by
  obtain ⟨db', hopen, hready, -, -, hsame⟩ := init_db_migrates Sample.older [2, 4]
  exact ⟨db', hopen, hready, hsame [3]⟩

end Sqlite

end WorkerBridge
