import WorkerBridge.Lifecycle
import WorkerBridge.Polling
import WorkerBridge.Reporting

namespace WorkerBridge

namespace Store

/-- Every row of `st` is in `st'`, some writes later. -/
def Lasts (st st' : Store) : Prop :=
  ∀ id r, st.get id = some r → ∃ r', st'.get id = some r' ∧ Relation.ReflTransGen RowStep r r'

instance : Trans Lasts Lasts Lasts where
  trans h h' := by
    intro id r hr
    obtain ⟨r', hr', hrow⟩ := h id r hr
    obtain ⟨r'', hr'', hrow'⟩ := h' id r' hr'
    exact ⟨r'', hr'', hrow.trans hrow'⟩

theorem Lasts.refl (st : Store) : st.Lasts st := fun _ r hr => ⟨r, hr, .refl⟩

end Store

/-- `None` is `null`. -/
def Json.orNull : Option Json → Json
  | some value => value
  | none => .null

namespace TaskResponse

def json (response : TaskResponse) : Json :=
  .obj [("ok".toList, .bool true),
    ("taskId".toList, .str response.taskId.toList),
    ("task_id".toList, .str response.taskId.toList),
    ("worker_id".toList, .str response.workerId.toList),
    ("working_directory".toList, Json.orNull (response.workingDirectory.map .str)),
    ("idempotency_key".toList, Json.orNull (response.idempotencyKey.map fun key => .str key.toList)),
    ("dispatch_attempt_id".toList,
      Json.orNull (response.dispatchAttemptId.map fun id => .str id.toList)),
    ("attempt_count".toList, .num response.attemptCount),
    ("state".toList, .str response.state.toList),
    ("result".toList, Json.orNull response.result),
    ("error".toList, Json.orNull (response.error.map .str)),
    ("created_at".toList, .str response.createdAt.toList),
    ("updated_at".toList, .str response.updatedAt.toList),
    ("completed_at".toList, Json.orNull (response.completedAt.map fun now => .str now.toList))]

end TaskResponse

def Response.json : Response → Json
  | task response => response.json
  | refused error taskId =>
    .obj ([("ok".toList, .bool false), ("error".toList, .str error)] ++
      (match taskId with | some id => [("task_id".toList, .str id.toList)] | none => []))

namespace Watchdog

/-- What a request meets.  The bridge may answer while a process runs; anything else may come in
between at any time. -/
inductive Meets (lib : Library) (taskId : String) : Bridge → Reply → Prop
  | served (p : Process) {body : List UInt8} {raw : Text} (hdecode : lib.decode body = some raw)
    (hloads : lib.loads raw = .ok (p.check taskId).json) : Meets lib taskId (.up p) (.response body)
  | httpError (b : Bridge) (code : ℕ) (body : Text) : Meets lib taskId b (.httpError code body)
  | unread (b : Bridge) (code : ℕ) : Meets lib taskId b (.unread code)
  | network (b : Bridge) (message : Text) : Meets lib taskId b (.network message)

/-- The bridge is in the state `history k` when request `k` comes. -/
structure Watches (lib : Library) (host : Host) (taskId : String) (history : ℕ → Bridge)
    (out : Outside) : Prop where
  reachable : (Bridge.machine host).Reachable Runs.anyStep (history 0)
  leads : ∀ k, (Bridge.machine host).Leads Runs.anyStep (history k) (history (k + 1))
  meets : ∀ k, Meets lib taskId (history k) (out.reply k)

/-- The row of the task at request `k`. -/
def seen (taskId : String) (history : ℕ → Bridge) (k : ℕ) : Option TaskRecord :=
  (history k).world.store.get taskId

/-- Exceptions that are not about the task: the time is over, the bridge was not reached, or what
answered was an HTTP error. -/
inductive Outer (out : Outside) : Raised → Prop
  | timeout (message : Text) : Outer out (.watchdog (.timeout message))
  | transient (message : Text) : Outer out (.watchdog (.transient message))
  | refused {k code : ℕ} {body : Text} (hreply : out.reply k = .httpError code body)
    (message : Text) : Outer out (.watchdog (.api message))
  | unread {k code : ℕ} (hreply : out.reply k = .unread code) : Outer out .osError

variable {lib : Library} {config : WatchdogConfig} {out : Outside} {host : Host} {taskId : String}
  {history : ℕ → Bridge} {k : ℕ}

namespace Watches

end Watches

theorem json_fields (response : TaskResponse) : ∃ fields, response.json = .obj fields ∧
    fields.lookup "ok".toList = some (.bool true) ∧
    fields.lookup "state".toList = some (.str response.state.toList) := by
  unfold TaskResponse.json
  exact ⟨_, rfl, rfl, rfl⟩

theorem checkTask_served {b : Bridge} {body : List UInt8}
    (h : Meets lib taskId b (.response body)) : checkTask lib (.response body) =
      match b.world.store.get taskId with
      | some r => .ok (taskResponse r).json
      | none => .error (.watchdog (.api "task not found".toList)) := by
  cases h with
  | served p hdecode hloads =>
    have hworld : (Bridge.up p).world.store.get taskId = p.row taskId := rfl
    rw [hworld]
    unfold Process.check at hloads
    unfold checkTask
    simp only [hdecode, hloads]
    cases hrow : p.row taskId with
    | none => rfl
    | some r =>
      obtain ⟨fields, hfields, hok, -⟩ := json_fields (taskResponse r)
      simp only [Response.json, hfields, hok]

theorem Watches.of_ok (h : Watches lib host taskId history out) {result : Json}
    (hr : checkTask lib (out.reply k) = .ok result) :
    ∃ r, seen taskId history k = some r ∧ result = (taskResponse r).json := by
  have hmeets := h.meets k
  generalize hreply : out.reply k = reply at hr hmeets
  cases reply with
  | response body =>
    rw [checkTask_served hmeets] at hr
    unfold seen
    cases hrow : (history k).world.store.get taskId with
    | none =>
      rw [hrow] at hr
      cases hr
    | some r =>
      rw [hrow] at hr
      cases hr
      exact ⟨r, rfl, rfl⟩
  | httpError code body =>
    unfold checkTask at hr
    dsimp only at hr
    split at hr <;> cases hr
  | unread code => cases hr
  | network message => cases hr

theorem Watches.of_error (h : Watches lib host taskId history out) {raised : Raised} {r : TaskRecord}
    (hrow : seen taskId history k = some r)
    (hr : checkTask lib (out.reply k) = .error raised) : Outer out raised := by
  have hmeets := h.meets k
  generalize hreply : out.reply k = reply at hr hmeets
  cases reply with
  | response body =>
    unfold seen at hrow
    rw [checkTask_served hmeets, hrow] at hr
    cases hr
  | httpError code body =>
    unfold checkTask at hr
    dsimp only at hr
    split at hr
    · cases hr
      exact .transient _
    · cases hr
      exact .refused hreply _
  | unread code =>
    cases hr
    exact .unread hreply
  | network message =>
    cases hr
    exact .transient _

namespace Sample

def cancelled : TaskResponse where
  taskId := "a"
  workerId := "w"
  workingDirectory := some "/srv".toList
  idempotencyKey := none
  dispatchAttemptId := none
  attemptCount := 0
  state := "Cancelled"
  result := none
  error := some "cancelled by caller".toList
  createdAt := "t0"
  updatedAt := "t1"
  completedAt := some "t1"

def cancelledBody : Text :=
  ("\x7b\"ok\":true,\"taskId\":\"a\",\"task_id\":\"a\",\"worker_id\":\"w\"," ++
  "\"working_directory\":\"/srv\",\"idempotency_key\":null,\"dispatch_attempt_id\":null," ++
  "\"attempt_count\":0,\"state\":\"Cancelled\",\"result\":null," ++
  "\"error\":\"cancelled by caller\",\"created_at\":\"t0\",\"updated_at\":\"t1\"," ++
  "\"completed_at\":\"t1\"\x7d").toList

def late : Outside where
  clock _ := 0
  reply
    | 0 => .network "timed out".toList
    | _ + 1 => .response (cancelledBody.map fun c => c.toNat.toUInt8)

end Sample

end Watchdog

end WorkerBridge
