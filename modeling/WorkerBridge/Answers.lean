import WorkerBridge.Requests

namespace WorkerBridge

/-- `payload.get("id")`. -/
def requestId (payload : Json) : Json := (payload.item "id".toList).getD .null

/-- A JSON-RPC response to the request `id`: exactly one of `result` and `error`. -/
def IsResponse (id : Json) : Json → Prop
  | .obj fields => fields.lookup "jsonrpc".toList = some (.str "2.0".toList) ∧
      fields.lookup "id".toList = some id ∧
      (fields.lookup "result".toList).isSome = !(fields.lookup "error".toList).isSome
  | _ => False

section Rendering

variable (contents : ToolResult → Except PyExc Json) (ownText : Text → Text)

namespace Failure

/-- `str(exc)`, or `str(exc.detail)`. -/
def message : Failure → Text
  | python exc => exc.str
  | plain className => ownText className
  | http _ detail _ => detail

def code : Failure → ℚ
  | http _ _ _ => -32001
  | python _ | plain _ => -32000

def response (id : Json) (failure : Failure) : Json :=
  .obj [("jsonrpc".toList, .str "2.0".toList), ("id".toList, id),
    ("error".toList, .obj [("code".toList, .num failure.code),
      ("message".toList, .str (failure.message ownText))])]

end Failure

def ToolResult.response (id result : Json) : Json :=
  .obj [("jsonrpc".toList, .str "2.0".toList), ("id".toList, id), ("result".toList, result)]

/-- What the coroutine of a request returns or raises.  With the JSON-RPC front end the contents
are made inside the `try`. -/
def respond : Front → Except Failure ToolResult → Except Failure Json
  | .rpc id, .ok result =>
    match contents result with
    | .ok result => .ok (ToolResult.response id result)
    | .error exc => .ok ((Failure.python exc).response ownText id)
  | .rpc id, .error failure => .ok (failure.response ownText id)
  | .http, .ok result =>
    match contents result with
    | .ok result => .ok result
    | .error exc => .error (.python exc)
  | .http, .error failure => .error failure

/-- The reply is a JSON-RPC response to the request `id`. -/
def Reply.Answers (id : Json) : Reply → Prop
  | .later => False
  | .answered front answer => ∃ response, respond contents ownText front answer = .ok response ∧
      IsResponse id response

variable {contents ownText} {id : Json}

theorem Failure.isResponse (failure : Failure) : IsResponse id (failure.response ownText id) :=
  ⟨rfl, rfl, rfl⟩

theorem ToolResult.isResponse (result : Json) : IsResponse id (ToolResult.response id result) :=
  ⟨rfl, rfl, rfl⟩

theorem Reply.answers_rpc (answer : Except Failure ToolResult) :
    (Reply.answered (.rpc id) answer).Answers contents ownText id := by
  cases answer with
  | error failure => exact ⟨_, rfl, failure.isResponse⟩
  | ok result =>
    cases hc : contents result with
    | error exc =>
      refine ⟨(Failure.python exc).response ownText id, ?_, Failure.isResponse _⟩
      simp only [respond, hc]
    | ok value =>
      refine ⟨ToolResult.response id value, ?_, ToolResult.isResponse value⟩
      simp only [respond, hc]

end Rendering

/-- What a request waits for: the reload lock, for which it comes again, its synchronous call, or
the tasks of the old manager. -/
inductive Wait
  | lock
  | call (j : ℕ)
  | gather

def Wait.endsBy : Wait → AppEvent → Prop
  | .call j, .endSync j' _ => j' = j
  | .gather, .resumeReload _ _ => True
  | _, _ => False

namespace App

variable (env : Environment) (app app' : App)

/-- The process from `app` on. -/
def machine : Runs.Machine App AppEvent := ⟨app, fun app event => (app.step env event).map Prod.fst⟩

/-- What a request waits for that has taken `app` to `app'`. -/
def waitOf : Wait :=
  if app.syncCalls.length < app'.syncCalls.length then .call app.syncCalls.length
  else if app.reloading.isSome then .lock
  else .gather

variable (contents : ToolResult → Except PyExc Json) (ownText : Text → Text)

/-- A request that has taken `app` to `out` is answered: at once, or by the step that ends its
wait, whatever comes before that.  A call that is under way can end in any way. -/
def Answered (id : Json) (out : App × Reply) : Prop :=
  match out.2 with
  | .answered front answer => (Reply.answered front answer).Answers contents ownText id
  | .later =>
    let wait := app.waitOf out.1
    (wait = .lock → out.1 = app) ∧
    ∀ app', (machine env out.1).Reachable (fun _ event => ¬ wait.endsBy event) app' →
      (∀ event app'' reply, wait.endsBy event → app'.step env event = some (app'', reply) →
        ∃ reply', reply = some reply' ∧ reply'.Answers contents ownText id) ∧
      ∀ j, wait = .call j → ∃ call, app'.syncCalls[j]? = some call ∧
        (call.phase = .calling → ∀ outcome, (app'.endSync j outcome).isSome = true)

/-- The calls there are stay in their places, each with its front and its manager. -/
structure Kept : Prop where
  calls : ∀ (j : ℕ) (call : SyncCall), app.syncCalls[j]? = some call →
    ∃ call', app'.syncCalls[j]? = some call' ∧ call'.front = call.front ∧
      call'.manager = call.manager
  managers : app.managers.length ≤ app'.managers.length

variable {env app app'} {app'' : App} {contents ownText} {id : Json} {j k : ℕ}

namespace Kept

theorem of_managers (hcalls : app'.syncCalls = app.syncCalls)
    (hmanagers : app.managers.length ≤ app'.managers.length) : Kept app app' := by
  refine ⟨fun j call hcall => ⟨call, ?_, rfl, rfl⟩, hmanagers⟩
  rw [hcalls]
  exact hcall

theorem of_same (hcalls : app'.syncCalls = app.syncCalls)
    (hmanagers : app'.managers.length = app.managers.length) : Kept app app' :=
  .of_managers hcalls (Nat.le_of_eq hmanagers.symm)

theorem refl (app : App) : Kept app app := .of_same rfl rfl

theorem trans (h : Kept app app') (h' : Kept app' app'') : Kept app app'' := by
  refine ⟨fun j call hcall => ?_, Nat.le_trans h.managers h'.managers⟩
  obtain ⟨call', hcall', hfront', hm'⟩ := h.calls j call hcall
  obtain ⟨call'', hcall'', hfront'', hm''⟩ := h'.calls j call' hcall'
  exact ⟨call'', hcall'', hfront''.trans hfront', hm''.trans hm'⟩

theorem put (m : TaskManager) (p : Process) : Kept app (app.put k m p) :=
  .of_same rfl List.length_set

theorem append (call : SyncCall) (hcalls : app'.syncCalls = app.syncCalls ++ [call])
    (hmanagers : app'.managers.length = app.managers.length) : Kept app app' := by
  refine ⟨fun j call' hcall => ⟨call', ?_, rfl, rfl⟩, Nat.le_of_eq hmanagers.symm⟩
  rw [hcalls, List.getElem?_append_left (List.getElem?_eq_some_iff.mp hcall).1]
  exact hcall

theorem moved {call : SyncCall} {phase : SyncPhase} (hcall : app.syncCalls[k]? = some call)
    (hcalls : app'.syncCalls = app.syncCalls.set k { call with phase := phase })
    (hmanagers : app'.managers.length = app.managers.length) : Kept app app' := by
  refine ⟨fun j call' hcall' => ?_, Nat.le_of_eq hmanagers.symm⟩
  rw [hcalls]
  by_cases hj : j = k
  · subst hj
    obtain rfl := Option.some.inj (hcall.symm.trans hcall')
    exact ⟨_, List.getElem?_set_self (List.getElem?_eq_some_iff.mp hcall).1, rfl, rfl⟩
  · rw [List.getElem?_set_ne (Ne.symm hj)]
    exact ⟨call', hcall', rfl, rfl⟩

end Kept

variable {front : Front} {ctx : AuthContext} {inputs : Inputs}

theorem callSync_appends {worker : WorkerConfig} {workerId : String} {prompt : Text} {key : Json}
    {directory : Text} {active : ℕ} {out : App × Option ToolResult}
    (h : app.callSync front ctx worker workerId prompt key directory active = .ok out) :
    out.2 = none ∧ out.1.managers.length = app.managers.length ∧
      out.1.reloading = app.reloading ∧ ∃ call : SyncCall,
        out.1.syncCalls = app.syncCalls ++ [call] ∧ call.front = front ∧
          call.manager = app.manager := by
  rcases callSync_ok h with ⟨-, rfl⟩ | ⟨-, rfl⟩
  · exact ⟨rfl, List.length_set, rfl, app.syncCall front ctx worker workerId prompt key directory
      (.waiting app.current.syncLimit.tickets), rfl, rfl, rfl⟩
  · refine ⟨rfl, List.length_set, rfl,
      app.syncCall front ctx worker workerId prompt key directory .calling, ?_, rfl, rfl⟩
    show (app.syncCalls ++ [_]).set app.syncCalls.length _ = app.syncCalls ++ [_]
    rw [List.set_append_right _ _ (Nat.le_refl _), Nat.sub_self]
    rfl

theorem calls_kept {out : App × Option ToolResult} (h : Calls env app front ctx inputs out) :
    Kept app out.1 ∧ out.1.reloading = app.reloading := by
  cases h with
  | refused response hout => exact hout ▸ ⟨.refl app, rfl⟩
  | sync workerId prompt key worker directory _ _ hcall =>
    obtain ⟨-, hmanagers, hreloading, call, hcalls, -, -⟩ := callSync_appends hcall
    exact ⟨.append call hcalls hmanagers, hreloading⟩
  | async request worker directory p response _ _ _ hout =>
    subst hout
    unfold accept
    simp only
    split <;> exact ⟨.of_same rfl List.length_set, rfl⟩

theorem installManager_kept (env : Environment) (app : App) (pending : PendingReload)
    (fault : Option Fault) (now : String) :
    Kept app (app.installManager env pending fault now).1 ∧
      (app.installManager env pending fault now).2 ≠ .suspended := by
  rcases installManager_cases env app pending fault now with
    ⟨w, exc, -, heq⟩ | ⟨p, -, heq⟩
  · rw [heq]
    exact ⟨.of_same rfl rfl, nofun⟩
  · rw [heq]
    refine ⟨.of_managers rfl ?_, nofun⟩
    show app.managers.length ≤ (app.managers ++ [_]).length
    rw [List.length_append]
    exact Nat.le_add_right _ _

theorem reloads_kept {files : Files} {loaded : Except PyExc AppConfig} {fault : Option Fault}
    {now : String} {out : App × ReloadOutcome}
    (h : Reloads env app front ctx files fault now loaded out) : Kept app out.1 := by
  cases h with
  | unloaded => exact .refl app
  | unlogged | unaudited | refused => exact .of_same rfl rfl
  | installs config root audit =>
    have hkept := (installManager_kept env (app.logged root).halting
      ⟨front, ctx, files, config, audit, app.manager⟩ fault now).1
    have hhalt : Kept app (app.logged root).halting := .of_same rfl List.length_set
    exact hhalt.trans hkept
  | waits => exact .of_same rfl List.length_set
  | updates => exact .of_same rfl List.length_set

theorem operates_kept {operation : Operation}
    (h : Operates env app front ctx inputs operation app') : Kept app app' := by
  cases h with
  | same => exact .refl app
  | calls _ _ _ _ out hcalls => exact (calls_kept hcalls).1
  | cancels => exact .put _ _
  | reloads => exact reloads_kept (reloadConfig_reloads env app front ctx _ _ _ _)

theorem operates_reloading {operation : Operation} {pending : PendingReload}
    (h : Operates env app front ctx inputs operation app') (hpending : app.reloading = some pending) :
    app'.reloading = some pending := by
  cases h with
  | same => exact hpending
  | calls _ _ _ _ out hcalls => exact (calls_kept hcalls).2.trans hpending
  | cancels => exact hpending
  | reloads hidle => exact nomatch hidle.symm.trans hpending

theorem step_kept {event : AppEvent} {reply : Option Reply}
    (h : app.step env event = some (app', reply)) : Kept app app' := by
  cases step_does h with
  | idle => exact .refl app
  | operates request ctx inputs front operation =>
    exact operates_kept (operate_operates env app front ctx operation inputs)
  | resumeSync j call m ticket hcall => exact .moved hcall rfl List.length_set
  | endSync j outcome call m metrics reply hcall => exact .moved hcall rfl List.length_set
  | resumeReload fault now pending m gathered =>
    have hkept := (installManager_kept env (app.put pending.manager m (app.process m).stopped)
      pending fault now).1
    exact (Kept.put m _).trans hkept
  | background => exact .of_same rfl List.length_set
  | shutdown => exact .of_same rfl List.length_set
  | stopped => exact .put _ _

theorem step_reloading {event : AppEvent} {reply : Option Reply} {pending : PendingReload}
    (h : app.step env event = some (app', reply)) (hpending : app.reloading = some pending)
    (hother : ¬ Wait.gather.endsBy event) : app'.reloading = some pending := by
  cases step_does h with
  | idle => exact hpending
  | operates request ctx inputs front operation =>
    exact operates_reloading (operate_operates env app front ctx operation inputs) hpending
  | resumeSync => exact hpending
  | endSync => exact hpending
  | resumeReload => exact absurd trivial hother
  | background => exact hpending
  | shutdown => exact hpending
  | stopped => exact hpending

/-- What becomes of a request: it is answered on its front, or it waits. -/
inductive Left (front : Front) (app : App) : App × Reply → Prop
  | answered (app' : App) (answer : Except Failure ToolResult) :
    Left front app (app', .answered front answer)
  | lock (hlock : app.reloading.isSome = true) : Left front app (app, .later)
  | call (app' : App) (call : SyncCall) (hcalls : app'.syncCalls = app.syncCalls ++ [call])
    (hfront : call.front = front) (hmanager : call.manager < app'.managers.length) :
    Left front app (app', .later)
  | gather (app' : App) (pending : PendingReload) (hidle : app.reloading = none)
    (hcalls : app'.syncCalls = app.syncCalls) (hpending : app'.reloading = some pending)
    (hfront : pending.front = front) : Left front app (app', .later)

theorem reloadReply_answered (front : Front) {out : App × ReloadOutcome} (h : out.2 ≠ .suspended) :
    ∃ answer, reloadReply front out = (out.1, .answered front answer) := by
  obtain ⟨app, outcome⟩ := out
  cases outcome with
  | raised failure => exact ⟨_, rfl⟩
  | suspended => exact absurd rfl h
  | done => exact ⟨_, rfl⟩

theorem reloads_left {files : Files} {loaded : Except PyExc AppConfig} {fault : Option Fault}
    {now : String} {out : App × ReloadOutcome} (hidle : app.reloading = none)
    (h : Reloads env app front ctx files fault now loaded out) :
    Left front app (reloadReply front out) := by
  cases h with
  | unloaded | unlogged | unaudited | refused | updates => exact .answered _ _
  | installs config root audit =>
    obtain ⟨answer, heq⟩ := reloadReply_answered front
      (installManager_kept env (app.logged root).halting
        ⟨front, ctx, files, config, audit, app.manager⟩ fault now).2
    exact heq ▸ .answered _ answer
  | waits config root audit => exact .gather _ _ hidle rfl rfl rfl

theorem operate_left (operation : Operation) :
    Left front app (app.operate env front ctx operation inputs) := by
  cases operation with
  | call workerId prompt mode key =>
    simp only [operate]
    split
    · exact .answered _ _
    · next app' hcall =>
      cases callManager_calls hcall with
      | refused response hout => cases hout
      | sync workerId prompt key worker directory _ _ hcall =>
        obtain ⟨-, hmanagers, -, call, hcalls, hfront, hmanager⟩ := callSync_appends hcall
        refine .call _ call hcalls hfront ?_
        rw [hmanagers, hmanager]
        exact app.manager_lt
      | async request worker directory p response _ _ _ hout => cases hout
    · exact .answered _ _
  | check taskId => cases taskId <;> exact .answered _ _
  | cancel taskId => cases taskId <;> exact .answered _ _
  | list => exact .answered _ _
  | reload =>
    simp only [operate]
    split
    · next hlock => exact .lock hlock
    · next hlock =>
      exact reloads_left (by simpa using hlock) (reloadConfig_reloads env app front ctx _ _ _ _)

theorem handleJsonrpc_left (fields : List (Text × Json)) :
    Left (.rpc (requestId (.obj fields))) app
      (app.handleJsonrpc env (.obj fields) ctx inputs) := by
  show Left (.rpc ((fields.lookup "id".toList).getD .null)) app _
  unfold handleJsonrpc
  simp only
  split
  · split
    · unfold describe
      split <;> exact .answered _ _
    · split
      · split
        · unfold callTool
          simp only
          split
          · exact .answered _ _
          · exact .answered _ _
          · split
            · exact .answered _ _
            · exact operate_left _
        · exact .answered _ _
      · exact .answered _ _
  · exact .answered _ _

theorem endSync_replies {call : SyncCall} {outcome : Except PyExc Json} {reply : Option Reply}
    (hcall : app.syncCalls[j]? = some call)
    (h : app.step env (.endSync j outcome) = some (app', reply)) :
    ∃ answer, reply = some (.answered call.front answer) := by
  obtain ⟨⟨app₁, reply₁⟩, h₁, heq⟩ := Option.map_eq_some_iff.mp h
  cases heq
  obtain ⟨call', hcall', h₁⟩ := Option.bind_eq_some_iff.mp h₁
  obtain rfl := Option.some.inj (hcall.symm.trans hcall')
  obtain ⟨m, -, h₁⟩ := Option.bind_eq_some_iff.mp h₁
  split at h₁
  · cases outcome with
    | error exc =>
      cases h₁
      exact ⟨_, rfl⟩
    | ok result =>
      cases h₁
      exact ⟨_, rfl⟩
  · cases h₁

theorem endSync_isSome {call : SyncCall} (hcall : app.syncCalls[j]? = some call)
    (hmanager : call.manager < app.managers.length) (hphase : call.phase = .calling)
    (outcome : Except PyExc Json) : (app.endSync j outcome).isSome = true := by
  unfold endSync
  rw [hcall, Option.bind_some, List.getElem?_eq_getElem hmanager, Option.bind_some]
  simp only [hphase]
  cases outcome <;> rfl

theorem resumeReload_replies {pending : PendingReload} {fault : Option Fault} {now : String}
    {reply : Option Reply} (hpending : app.reloading = some pending)
    (h : app.step env (.resumeReload fault now) = some (app', reply)) :
    ∃ answer, reply = some (.answered pending.front answer) := by
  cases step_does h with
  | resumeReload _ _ pending' m gathered hpending' =>
    obtain rfl := Option.some.inj (hpending.symm.trans hpending')
    obtain ⟨answer, heq⟩ := reloadReply_answered pending.front (installManager_kept env
      (app.put pending.manager m (app.process m).stopped) pending fault now).2
    exact ⟨answer, by rw [heq]⟩

theorem machine_step {app₀ : App} {event : AppEvent}
    (h : (machine env app₀).step app event = some app') :
    ∃ reply, app.step env event = some (app', reply) := by
  obtain ⟨⟨app₁, reply⟩, hstep, rfl⟩ := Option.map_eq_some_iff.mp h
  exact ⟨reply, hstep⟩

theorem Left.isAnswered {out : App × Reply} (h : Left (.rpc id) app out) :
    app.Answered env contents ownText id out := by
  cases h with
  | answered app' answer => exact Reply.answers_rpc answer
  | lock hlock =>
    have hwait : app.waitOf app = .lock := by
      unfold waitOf
      rw [if_neg (lt_irrefl _), if_pos hlock]
    unfold Answered
    simp only [hwait]
    exact ⟨fun _ => trivial, fun _ _ => ⟨fun _ _ _ hends => hends.elim, nofun⟩⟩
  | call app' call hcalls hfront hmanager =>
    have hwait : app.waitOf app' = .call app.syncCalls.length := by
      unfold waitOf
      rw [if_pos (by rw [hcalls, List.length_append]; exact Nat.lt_succ_self _)]
    unfold Answered
    simp only [hwait]
    refine ⟨nofun, fun app₁ hreach => ?_⟩
    -- The call stays in its place, with the front of the request.
    have hcall : ∃ call', app₁.syncCalls[app.syncCalls.length]? = some call' ∧
        call'.front = .rpc id ∧ call'.manager < app₁.managers.length := by
      refine hreach.invariant (I := fun app₁ => ∃ call' : SyncCall,
          app₁.syncCalls[app.syncCalls.length]? = some call' ∧
          call'.front = .rpc id ∧ call'.manager < app₁.managers.length)
        ⟨call, ?_, hfront, hmanager⟩ ?_
      · show app'.syncCalls[_]? = _
        rw [hcalls, List.getElem?_concat_length]
      · rintro app₂ event app₃ - ⟨call₂, hcall₂, hfront₂, hmanager₂⟩ hstep
        obtain ⟨reply, hstep⟩ := machine_step hstep
        have hkept := step_kept hstep
        obtain ⟨call₃, hcall₃, hfront₃, hm₃⟩ := hkept.calls _ _ hcall₂
        exact ⟨call₃, hcall₃, hfront₃.trans hfront₂,
          hm₃ ▸ Nat.lt_of_lt_of_le hmanager₂ hkept.managers⟩
    obtain ⟨call₁, hcall₁, hfront₁, hmanager₁⟩ := hcall
    constructor
    · intro event app₂ reply hends hstep
      cases event with
      | endSync j outcome =>
        obtain rfl : j = app.syncCalls.length := hends
        obtain ⟨answer, rfl⟩ := endSync_replies hcall₁ hstep
        exact ⟨_, rfl, hfront₁ ▸ Reply.answers_rpc answer⟩
      | request | resumeSync | resumeReload | background | shutdown | stopped => exact hends.elim
    · rintro j hj
      obtain rfl : app.syncCalls.length = j := Wait.call.inj hj
      exact ⟨call₁, hcall₁, fun hphase => endSync_isSome hcall₁ hmanager₁ hphase⟩
  | gather app' pending hidle hcalls hpending hfront =>
    have hwait : app.waitOf app' = .gather := by
      unfold waitOf
      rw [if_neg (by rw [hcalls]; exact lt_irrefl _), if_neg (by simp [hidle])]
    unfold Answered
    simp only [hwait]
    refine ⟨nofun, fun app₁ hreach => ⟨fun event app₂ reply hends hstep => ?_, nofun⟩⟩
    have hpending₁ : app₁.reloading = some pending := by
      refine hreach.invariant (I := fun app₁ => app₁.reloading = some pending) hpending
        fun app₂ event app₃ hother hpending₂ hstep => ?_
      obtain ⟨reply, hstep⟩ := machine_step hstep
      exact step_reloading hstep hpending₂ hother
    cases event with
    | resumeReload fault now =>
      obtain ⟨answer, rfl⟩ := resumeReload_replies hpending₁ hstep
      exact ⟨_, rfl, hfront ▸ Reply.answers_rpc answer⟩
    | request | resumeSync | endSync | background | shutdown | stopped => exact hends.elim

end App

/-- A request of an authenticated context is answered exactly if its payload is an object.  What
is taken from any other value is taken outside the `try`. -/
theorem answered_iff (env : Environment) (contents : ToolResult → Except PyExc Json)
    (ownText : Text → Text) (app : App) (ctx : AuthContext) (inputs : Inputs) (payload : Json) :
    app.Answered env contents ownText (requestId payload)
        (app.handleJsonrpc env payload ctx inputs) ↔ ∃ fields, payload = .obj fields := by
  have hescapes : ∀ id, ¬ app.Answered env contents ownText id
      (app, .answered .http (.error (.plain "AttributeError".toList))) := by
    rintro id ⟨response, hresponse, -⟩
    cases hresponse
  cases payload with
  | obj fields => exact iff_of_true (App.handleJsonrpc_left fields).isAnswered ⟨fields, rfl⟩
  | null | bool | num | str | arr =>
    exact iff_of_false (hescapes _) (fun ⟨_, h⟩ => by cases h)

/-- A list, posted to a process that has just started. -/
theorem list_payload_escapes : ∃ app : App,
    (Server.machine Sample.environment fun _ => World.empty).Reachable Runs.anyStep (.up app) ∧
    app.handleJsonrpc Sample.environment (.arr []) Sample.operator
        (Sample.inputs "r" (.error (.other [] []))) =
      (app, .answered .http (.error (.plain "AttributeError".toList))) ∧
    ¬ app.Answered Sample.environment (fun _ => .ok .null) (fun className => className)
      (requestId (.arr [])) (app.handleJsonrpc Sample.environment (.arr []) Sample.operator
        (Sample.inputs "r" (.error (.other [] [])))) := by
  obtain ⟨app, hs, -⟩ := Server.exists_running Sample.environment (fun _ => World.empty)
    [Sample.start (Sample.appConfig "/a".toList)] (fun _ => true) (by decide)
  refine ⟨app, hs, rfl, ?_⟩
  rintro ⟨response, hresponse, -⟩
  cases hresponse

end WorkerBridge
