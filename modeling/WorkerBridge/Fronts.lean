import WorkerBridge.Bisimulation
import WorkerBridge.Policy
import WorkerBridge.Requests

namespace WorkerBridge

def Tool.name : Tool → Text
  | workerCall => "worker_call".toList
  | workerCheck => "worker_check".toList
  | workerList => "worker_list".toList
  | workerCancel => "worker_cancel".toList
  | workerConfigReload => "worker_config_reload".toList

namespace HttpRequest

def tool : HttpRequest → Tool
  | workerCall _ => .workerCall
  | workerCheck _ => .workerCheck
  | workerCancel _ => .workerCancel
  | reload => .workerConfigReload
  | look => .workerList

/-- The values of the request, as the arguments of the tool. -/
def arguments : HttpRequest → List (Text × Json)
  | workerCall body =>
    [("worker_id".toList, .str body.workerId.toList), ("prompt".toList, .str body.prompt),
      ("mode".toList, .str body.mode), ("idempotency_key".toList,
        match body.idempotencyKey with | some key => .str key.toList | none => .null)]
  | workerCheck taskId => [("task_id".toList, .str taskId.toList)]
  | workerCancel taskId => [("task_id".toList, .str taskId.toList)]
  | reload => []
  | look => []

def message (request : HttpRequest) (id : Json) : Json :=
  .obj [("jsonrpc".toList, .str "2.0".toList), ("id".toList, id),
    ("method".toList, .str "tools/call".toList),
    ("params".toList, .obj [("name".toList, .str request.tool.name),
      ("arguments".toList, .obj request.arguments)])]

end HttpRequest

inductive SameFront : Front → Front → Prop
  | same (front : Front) : SameFront front front
  | moved (id : Json) : SameFront .http (.rpc id)

def HttpRequest.body : HttpRequest → Option WorkerCallRequest
  | workerCall body => some body
  | _ => none

def AppEvent.body : AppEvent → Option WorkerCallRequest
  | request (.http r) _ _ => r.body
  | _ => none

def ServerEvent.body : ServerEvent → Option WorkerCallRequest
  | act event => event.body
  | _ => none

def SyncCall.Same (call call' : SyncCall) : Prop :=
  ∃ front, SameFront call.front front ∧ call' = { call with front := front }

def PendingReload.Same (pending pending' : PendingReload) : Prop :=
  ∃ front, SameFront pending.front front ∧ pending' = { pending with front := front }

namespace App

def withWaiting (app : App) (calls : List SyncCall) (pending : Option PendingReload) : App :=
  { app with syncCalls := calls, reloading := pending }

/-- Equal, but for the front of the requests that wait. -/
def Twin (app app' : App) : Prop :=
  ∃ calls pending, List.Forall₂ SyncCall.Same app.syncCalls calls ∧
    Option.Rel PendingReload.Same app.reloading pending ∧ app' = app.withWaiting calls pending

end App

theorem SyncCall.Same.refl (call : SyncCall) : call.Same call := ⟨call.front, .same _, rfl⟩

theorem PendingReload.Same.refl (pending : PendingReload) : pending.Same pending :=
  ⟨pending.front, .same _, rfl⟩

namespace App.Twin

theorem refl (app : App) : app.Twin app := by
  refine ⟨app.syncCalls, app.reloading, List.forall₂_same.mpr fun call _ => .refl call, ?_, rfl⟩
  cases app.reloading with
  | none => exact .none
  | some pending => exact .some (.refl pending)

end App.Twin

namespace App

section Step

variable (env : Environment) {app app' : App} {front front' : Front} (ctx : AuthContext)
  (inputs : Inputs)

theorem Twin.process (h : app.Twin app') (m : TaskManager) : app'.process m = app.process m := by
  obtain ⟨_, _, _, _, rfl⟩ := h
  rfl

theorem Twin.current (h : app.Twin app') : app'.current = app.current := by
  obtain ⟨_, _, _, _, rfl⟩ := h
  rfl

theorem Twin.put (h : app.Twin app') (k : ℕ) (m : TaskManager) (p : Process) :
    (app.put k m p).Twin (app'.put k m p) := by
  obtain ⟨calls, pending, hcalls, hpending, rfl⟩ := h
  exact ⟨calls, pending, hcalls, hpending, rfl⟩

theorem sameCall_set {calls calls' : List SyncCall} {call call' : SyncCall} {j : ℕ}
    (h : List.Forall₂ SyncCall.Same calls calls') (hcall : call.Same call') :
    List.Forall₂ SyncCall.Same (calls.set j call) (calls'.set j call') := by
  induction h generalizing j with
  | nil => exact .nil
  | cons hfirst hrest ih =>
    cases j with
    | zero => exact .cons hcall hrest
    | succ j => exact .cons hfirst ih

theorem Twin.sendSync {call call' : SyncCall} (h : app.Twin app') (hcall : call.Same call') (j : ℕ) :
    (app.sendSync j call).Twin (app'.sendSync j call') := by
  obtain ⟨calls, pending, hcalls, hpending, rfl⟩ := h
  obtain ⟨front, hfront, rfl⟩ := hcall
  exact ⟨_, pending, sameCall_set hcalls ⟨front, hfront, rfl⟩, hpending, rfl⟩

theorem Twin.withSync {call call' : SyncCall} (h : app.Twin app') (hcall : call.Same call')
    (limit : FifoSemaphore) : (app.withSync limit call).Twin (app'.withSync limit call') := by
  obtain ⟨calls, pending, hcalls, hpending, rfl⟩ := h
  exact ⟨calls ++ [call'], pending, List.rel_append hcalls (.cons hcall .nil), hpending, rfl⟩

theorem Twin.admitSync (h : app.Twin app') (worker : WorkerConfig) (workingDirectory : Text) :
    (app.admitSync worker workingDirectory).Twin (app'.admitSync worker workingDirectory) := by
  obtain ⟨calls, pending, hcalls, hpending, rfl⟩ := h
  refine ⟨calls, pending, hcalls, hpending, ?_⟩
  unfold App.admitSync withWaiting
  simp only [hcalls.length_eq]

theorem Twin.accept (h : app.Twin app') (p : Process) (taskId : String) (worker : WorkerConfig)
    (workingDirectory : Text) : (app.accept p taskId worker workingDirectory).Twin
      (app'.accept p taskId worker workingDirectory) := by
  obtain ⟨calls, pending, hcalls, hpending, rfl⟩ := h
  refine ⟨calls, pending, ?_, ?_, ?_⟩
  · unfold App.accept
    split <;> exact hcalls
  · unfold App.accept
    split <;> exact hpending
  · unfold App.accept
    split <;> rfl

theorem Twin.manager (h : app.Twin app') : app'.manager = app.manager := by
  obtain ⟨_, _, _, _, rfl⟩ := h
  rfl

theorem Twin.reloading (h : app.Twin app') : app'.reloading.isSome = app.reloading.isSome := by
  obtain ⟨_, pending, _, hpending, rfl⟩ := h
  show pending.isSome = app.reloading.isSome
  generalize app.reloading = reloading at hpending ⊢
  cases hpending <;> rfl

theorem Twin.site (h : app.Twin app') : app'.site = app.site := by
  obtain ⟨_, _, _, _, rfl⟩ := h
  rfl

theorem Twin.logged (h : app.Twin app') (root : LoggingState) :
    (app.logged root).Twin (app'.logged root) := by
  obtain ⟨calls, pending, hcalls, hpending, rfl⟩ := h
  exact ⟨calls, pending, hcalls, hpending, rfl⟩

theorem Twin.halting (h : app.Twin app') : app.halting.Twin app'.halting := by
  obtain ⟨calls, pending, hcalls, hpending, rfl⟩ := h
  exact ⟨calls, pending, hcalls, hpending, rfl⟩

theorem Twin.updateManager (h : app.Twin app') (files : Files) (config : AppConfig)
    (audit : AuditLogger) :
    (app.updateManager files config audit).Twin (app'.updateManager files config audit) := by
  obtain ⟨calls, pending, hcalls, hpending, rfl⟩ := h
  exact ⟨calls, pending, hcalls, hpending, rfl⟩

theorem Twin.awaiting {pending pending' : PendingReload} (h : app.Twin app')
    (hpending : pending.Same pending') :
    App.Twin { app with reloading := some pending } { app' with reloading := some pending' } := by
  obtain ⟨calls, _, hcalls, _, rfl⟩ := h
  exact ⟨calls, some pending', hcalls, .some hpending, rfl⟩

end Step

end App

section Answers

variable {env : Environment} {body : Option WorkerCallRequest} {front front' : Front}

end Answers

namespace App

section Request

variable (env : Environment) {app app' : App} {front front' : Front} (ctx : AuthContext)
  (inputs : Inputs)

end Request

end App

inductive AppEvent.Same : AppEvent → AppEvent → Prop
  | same (event : AppEvent) : AppEvent.Same event event
  | moved (request : HttpRequest) (id : Json) (ctx : AuthContext) (inputs : Inputs) :
    AppEvent.Same (.request (.http request) ctx inputs)
      (.request (.rpc (request.message id)) ctx inputs)

/-- The same events, but for the front end of some requests. -/
inductive ServerEvent.Same : ServerEvent → ServerEvent → Prop
  | same (event : ServerEvent) : ServerEvent.Same event event
  | act {event event' : AppEvent} (h : event.Same event') : ServerEvent.Same (.act event) (.act event')
  | actCrash {event event' : AppEvent} (h : event.Same event') (lost : Text → ℕ) :
    ServerEvent.Same (.actCrash event lost) (.actCrash event' lost)

namespace App

section Step

variable (env : Environment) {app app' : App}

variable {body : Option WorkerCallRequest}

theorem Twin.fresh (h : app.Twin app') (taskId : String) : app'.fresh taskId ↔ app.fresh taskId := by
  unfold App.fresh
  rw [h.current, h.process]

theorem Twin.putManager (h : app.Twin app') (k : ℕ) (m : TaskManager) :
    (app.putManager k m).Twin (app'.putManager k m) := by
  obtain ⟨calls, pending, hcalls, hpending, rfl⟩ := h
  exact ⟨calls, pending, hcalls, hpending, rfl⟩

theorem Twin.managers (h : app.Twin app') : app'.managers = app.managers := by
  obtain ⟨_, _, _, _, rfl⟩ := h
  rfl

theorem Twin.endedSync {call call' : SyncCall} (h : app.Twin app') (hcall : call.Same call')
    (j : ℕ) (m : TaskManager) (metrics : MetricsRegistry) :
    (app.endedSync j call m metrics).Twin (app'.endedSync j call' m metrics) := by
  obtain ⟨calls, pending, hcalls, hpending, rfl⟩ := h
  obtain ⟨front, hfront, rfl⟩ := hcall
  exact ⟨_, pending, sameCall_set hcalls ⟨front, hfront, rfl⟩, hpending, rfl⟩

end Step

end App

namespace Server

variable (env : Environment)

/-- `step`, with the answer that is given on the way. -/
def answering : Server → ServerEvent → Option (Server × Option Reply)
  | up app, .act event => (app.step env event).map fun out => (up out.1, out.2)
  | s, event => (step env s event).map fun s' => (s', none)

theorem answering_fst (s : Server) (event : ServerEvent) :
    (answering env s event).map Prod.fst = step env s event := by
  have hdown : ∀ next : Option Server,
      (next.map fun s' => (s', (none : Option Reply))).map Prod.fst = next := by
    intro next
    cases next <;> rfl
  cases s with
  | down site => exact hdown _
  | up app =>
    cases event with
    | act event =>
      simp only [answering, step]
      cases app.step env event <;> rfl
    | actCrash event lost => exact hdown _
    | start | startCrash | crash => rfl

inductive Twin : Server → Server → Prop
  | down (site : Site) : Twin (down site) (down site)
  | up {app app' : App} (h : app.Twin app') : Twin (up app) (up app')

theorem Twin.site {s s' : Server} (h : Twin s s') : s'.site = s.site := by
  cases h with
  | down => rfl
  | up h => exact App.Twin.site h

theorem Twin.refl (s : Server) : Twin s s := by
  cases s with
  | down site => exact .down site
  | up app => exact .up (.refl app)

end Server

namespace Sample

/-- Two calls of a worker, one of them in no mode, a check and a cancellation. -/
def requests : List (HttpRequest × String) :=
  [(.workerCall ⟨"w", prompt, "async".toList, some "k", by decide⟩, "a"),
    (.workerCall ⟨"w", prompt, "later".toList, none, by decide⟩, "b"),
    (.workerCheck "a", "c"), (.workerCancel "a", "d")]

def sent (request : HttpRequest → Request) : List ServerEvent :=
  start (appConfig "/db".toList) :: requests.map fun (r, taskId) =>
    .act (.request (request r) operator (inputs taskId (.error (.other [] []))))

end Sample

end WorkerBridge
