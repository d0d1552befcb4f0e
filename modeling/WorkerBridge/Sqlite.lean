import WorkerBridge.Sql
import WorkerBridge.Store

namespace WorkerBridge

namespace Sqlite

open Sql TaskState

/-- `json.dumps` and `json.loads`. -/
structure Codec where
  dumps : Json → Text
  loads : Text → Except PyExc Json

def taskColumns : List Column :=
  -- The primary key is a text, which SQLite lets be `NULL`.
  [⟨"task_id", false, true, .null⟩,
   ⟨"worker_id", true, false, .null⟩,
   ⟨"prompt", true, false, .null⟩,
   ⟨"working_directory", false, false, .null⟩,
   ⟨"idempotency_key", false, true, .null⟩,
   ⟨"dispatch_attempt_id", false, false, .null⟩,
   ⟨"attempt_count", true, false, .integer 0⟩,
   ⟨"state", true, false, .null⟩,
   ⟨"result_json", false, false, .null⟩,
   ⟨"error", false, false, .null⟩,
   ⟨"created_at", true, false, .null⟩,
   ⟨"updated_at", true, false, .null⟩,
   ⟨"started_at", false, false, .null⟩,
   ⟨"completed_at", false, false, .null⟩,
   ⟨"timeout_seconds", true, false, .null⟩]

/-- The columns that a table of an older version lacks. -/
def addedColumns : List Column :=
  [⟨"working_directory", false, false, .null⟩,
   ⟨"dispatch_attempt_id", false, false, .null⟩,
   ⟨"attempt_count", true, false, .integer 0⟩]

def createIndexes : List Statement :=
  [.createIndex "idx_tasks_state" "tasks" ["state"],
   .createIndex "idx_tasks_worker" "tasks" ["worker_id"],
   .createIndex "idx_tasks_worker_state" "tasks" ["worker_id", "state"]]

/-- The columns of `PRAGMA table_info(tasks)` after the `CREATE TABLE`. -/
def tableInfo (db : Database) : List String :=
  names (match db.tables "tasks" with
    | some t => t.columns
    | none => taskColumns)

def initScript (db : Database) : List Statement :=
  .createTable "tasks" taskColumns ::
    ((addedColumns.filter fun column => decide (column.name ∉ tableInfo db)).map fun column =>
      .addColumn "tasks" column) ++ createIndexes

def initDb (db : Database) : Except Error Database := db.run (initScript db)

/-- A process that dies after `n` statements of `_init_db`. -/
def crashedInit (db : Database) (n : ℕ) : Except Error Database := db.run ((initScript db).take n)

/-- Processes that die in `_init_db`, and one that comes to its end. -/
def reopen (db : Database) : List ℕ → Except Error Database
  | [] => initDb db
  | n :: crashes => (crashedInit db n).bind fun db => reopen db crashes

def textOrNull : Option Text → Value
  | some s => .text s
  | none => .null

def params (c : Codec) (task : TaskRecord) : List (String × Value) :=
  [("task_id", .text task.taskId.toList),
   ("worker_id", .text task.workerId.toList),
   ("prompt", .text task.prompt),
   ("working_directory", textOrNull task.workingDirectory),
   ("idempotency_key", textOrNull (task.idempotencyKey.map String.toList)),
   ("dispatch_attempt_id", textOrNull (task.dispatchAttemptId.map String.toList)),
   ("attempt_count", .integer task.attemptCount),
   ("state", .text task.state.value.toList),
   ("result_json", textOrNull (task.result.map c.dumps)),
   ("error", textOrNull task.error),
   ("created_at", .text task.createdAt.toList),
   ("updated_at", .text task.updatedAt.toList),
   ("started_at", textOrNull (task.startedAt.map String.toList)),
   ("completed_at", textOrNull (task.completedAt.map String.toList)),
   ("timeout_seconds", .real task.timeoutSeconds)]

/-- The columns an `upsert` sets in a row that is there. -/
def setColumns : List String :=
  ["worker_id", "prompt", "working_directory", "idempotency_key", "dispatch_attempt_id",
   "attempt_count", "state", "result_json", "error", "updated_at", "started_at", "completed_at",
   "timeout_seconds"]

/-- What the constructor of `TaskRecord` raises for a field of another type. -/
def invalid (field : String) : PyExc := .other "ValidationError".toList field.toList

def cell (item : String → Option Value) (name : String) : Except PyExc Value :=
  match item name with
  | some value => .ok value
  | none => .error (.other "IndexError".toList "No item with that key".toList)

def textCell (item : String → Option Value) (name : String) : Except PyExc Text := do
  match ← cell item name with
  | .text s => .ok s
  | _ => .error (invalid name)

def textOrNoneCell (item : String → Option Value) (name : String) : Except PyExc (Option Text) := do
  match ← cell item name with
  | .text s => .ok (some s)
  | .null => .ok none
  | _ => .error (invalid name)

def countCell (item : String → Option Value) (name : String) : Except PyExc ℕ := do
  match ← cell item name with
  | .integer (.ofNat n) => .ok n
  | _ => .error (invalid name)

def secondsCell (item : String → Option Value) (name : String) : Except PyExc ℚ := do
  match ← cell item name with
  | .real q => .ok q
  | .integer n => .ok n
  | _ => .error (invalid name)

def allStates : List TaskState :=
  [pending, running, completed, failed, cancelled, timedOut, recovering, retrying]

def stateOfValue (value : Text) : Except PyExc TaskState :=
  match allStates.find? fun s => decide (s.value.toList = value) with
  | some s => .ok s
  | none => .error (.other "ValueError".toList
      ("'".toList ++ value ++ "' is not a valid TaskState".toList))

/-- `json.loads` of a text that is there, which has to be a dictionary. -/
def resultOfText (c : Codec) : Option Text → Except PyExc (Option Json)
  | none | some [] => .ok none
  | some s => do
    match ← c.loads s with
    | .obj fields => .ok (some (.obj fields))
    | _ => .error (invalid "result")

def rowToRecord (c : Codec) (item : String → Option Value) : Except PyExc TaskRecord := do
  let taskId ← textCell item "task_id"
  let workerId ← textCell item "worker_id"
  let prompt ← textCell item "prompt"
  let workingDirectory ← textOrNoneCell item "working_directory"
  let idempotencyKey ← textOrNoneCell item "idempotency_key"
  let dispatchAttemptId ← textOrNoneCell item "dispatch_attempt_id"
  let attemptCount ← countCell item "attempt_count"
  let state ← textCell item "state"
  let state ← stateOfValue state
  let result ← textOrNoneCell item "result_json"
  let result ← resultOfText c result
  let error ← textOrNoneCell item "error"
  let createdAt ← textCell item "created_at"
  let updatedAt ← textCell item "updated_at"
  let startedAt ← textOrNoneCell item "started_at"
  let completedAt ← textOrNoneCell item "completed_at"
  let timeoutSeconds ← secondsCell item "timeout_seconds"
  .ok
    { taskId := .ofList taskId
      workerId := .ofList workerId
      prompt := prompt
      workingDirectory := workingDirectory
      idempotencyKey := idempotencyKey.map .ofList
      dispatchAttemptId := dispatchAttemptId.map .ofList
      attemptCount := attemptCount
      state := state
      result := result
      error := error
      createdAt := .ofList createdAt
      updatedAt := .ofList updatedAt
      startedAt := startedAt.map .ofList
      completedAt := completedAt.map .ofList
      timeoutSeconds := timeoutSeconds }

/-- The exceptions of `sqlite3`, with the texts of SQLite. -/
def pyExc : Error → PyExc
  | .unique column => .integrityError ("tasks." ++ column)
  | .notNull column =>
    .other "IntegrityError".toList ("NOT NULL constraint failed: tasks.".toList ++ column.toList)
  | .noSuchTable table => .other "OperationalError".toList ("no such table: ".toList ++ table.toList)
  | .noSuchColumn column =>
    .other "OperationalError".toList ("table tasks has no column named ".toList ++ column.toList)
  | .duplicateColumn column =>
    .other "OperationalError".toList ("duplicate column name: ".toList ++ column.toList)
  | .cannotAdd column => .other "OperationalError".toList ("Cannot add column ".toList ++ column.toList)
  | .noConstraint _ => .other "OperationalError".toList
      "ON CONFLICT clause does not match any PRIMARY KEY or UNIQUE constraint".toList

def execute (db : Database) (statement : Statement) : Except PyExc Database :=
  (db.exec statement).mapError pyExc

def tasks (db : Database) : Except PyExc Relation :=
  match db.tables "tasks" with
  | some t => .ok t
  | none => .error (pyExc (.noSuchTable "tasks"))

def fetchOne (c : Codec) (t : Relation) : List Row → Except PyExc (Option TaskRecord)
  | [] => .ok none
  | row :: _ => (rowToRecord c (t.item row)).map some

def upsert (c : Codec) (db : Database) (task : TaskRecord) : Except PyExc Database :=
  execute db (.upsert "tasks" "task_id" setColumns (params c task))

def get (c : Codec) (db : Database) (taskId : String) : Except PyExc (Option TaskRecord) := do
  let t ← tasks db
  fetchOne c t (t.selectWhere "task_id" (.text taskId.toList))

def getByIdempotencyKey (c : Codec) (db : Database) (key : String) :
    Except PyExc (Option TaskRecord) := do
  let t ← tasks db
  fetchOne c t (t.selectWhere "idempotency_key" (.text key.toList))

/-- What fails between `BEGIN IMMEDIATE` and `COMMIT` is rolled back. -/
def createOrGet (c : Codec) (db : Database) (task : TaskRecord) :
    Except PyExc (Database × TaskRecord × Bool) :=
  match task.idempotencyKey with
  | none => (upsert c db task).map fun db => (db, task, true)
  | some key =>
    if key = "" then (upsert c db task).map fun db => (db, task, true)
    else do
      match ← getByIdempotencyKey c db key with
      | some existing => .ok (db, existing, false)
      | none => (execute db (.insert "tasks" (params c task))).map fun db => (db, task, true)

/-- `state IN (...)`. -/
def inStates (states : List TaskState) (row : Row) : Bool :=
  states.any fun s => (row "state").equals (.text s.value.toList)

def listByStates (c : Codec) (arrange : List Row → List Row) (db : Database)
    (states : List TaskState) : Except PyExc (List TaskRecord) := do
  if states.isEmpty then .ok []
  else
    let t ← tasks db
    (arrange (t.rows.filter (inStates states))).mapM fun row => rowToRecord c (t.item row)

def countByStates (db : Database) (states : List TaskState) (workerId : Option String) :
    Except PyExc ℕ := do
  if states.isEmpty then .ok 0
  else
    let t ← tasks db
    match workerId with
    | none => .ok (t.rows.countP (inStates states))
    | some workerId => .ok (t.rows.countP fun row =>
        inStates states row && (row "worker_id").equals (.text workerId.toList))

/-- The loop of `mark_recovering` over the records it has read. -/
def markRecoveringLoop (c : Codec) (db : Database) (now : String) :
    List TaskRecord → Except PyExc (Database × List TaskRecord)
  | [] => .ok (db, [])
  | task :: rest =>
    if task.state = pending then do
      let (db, updated) ← markRecoveringLoop c db now rest
      .ok (db, task :: updated)
    else do
      let task := Store.markRecovering task now
      let db ← upsert c db task
      let (db, updated) ← markRecoveringLoop c db now rest
      .ok (db, task :: updated)

def markRecovering (c : Codec) (arrange : List Row → List Row) (db : Database) (now : String) :
    Except PyExc (Database × List TaskRecord) := do
  markRecoveringLoop c db now (← listByStates c arrange db Store.recoverableStates)

def probeColumns : List Column := [⟨"id", false, true, .null⟩, ⟨"updated_at", false, false, .null⟩]

def ping (db : Database) (now : String) : Except PyExc Database := do
  let db ← execute db (.createTable "readiness_probe" probeColumns)
  execute db (.upsert "readiness_probe" "id" ["updated_at"]
    [("id", .integer 1), ("updated_at", .text now.toList)])

end Sqlite

end WorkerBridge
