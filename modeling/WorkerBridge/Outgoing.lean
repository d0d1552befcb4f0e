import WorkerBridge.Outcomes

namespace Text

def isAscii (t : Text) : Bool := t.all fun c => decide (c.toNat < 128)

def isVisible (c : Char) : Bool := decide (0x21 ≤ c.toNat ∧ c.toNat ≤ 0x7E)

def isPlain (t : Text) : Bool :=
  t.all (fun c => isVisible c || c == ' ') && t.head?.all isVisible && t.getLast?.all isVisible

theorem isPlain_word {t : Text} (h : t.all isVisible = true) : isPlain t = true := by
  have hall := List.all_eq_true.mp h
  unfold isPlain
  simp only [Bool.and_eq_true, List.all_eq_true, Option.all_eq_true, Bool.or_eq_true]
  exact ⟨⟨fun c hc => Or.inl (hall c hc), fun c hc => hall c (List.mem_of_mem_head? hc)⟩,
    fun c hc => hall c (List.mem_of_mem_getLast? hc)⟩

theorem isPlain_append {a b : Text} (ha : (a.all fun c => isVisible c || c == ' ') = true)
    (hhead : a.head?.any isVisible = true) (hne : b ≠ []) (hb : b.all isVisible = true) :
    isPlain (a ++ b) = true := by
  have hall := List.all_eq_true.mp hb
  cases a with
  | nil => cases hhead
  | cons c a =>
    unfold isPlain
    rw [List.all_append, ha, Bool.true_and, List.cons_append, List.head?_cons,
      ← List.cons_append, List.getLast?_append_of_ne_nil _ hne]
    simp only [Bool.and_eq_true, List.all_eq_true, Option.all_eq_true, Bool.or_eq_true]
    exact ⟨⟨fun c hc => Or.inl (hall c hc), fun d hd => Option.some.inj hd ▸ hhead⟩,
      fun c hc => hall c (List.mem_of_mem_getLast? hc)⟩

theorem isVisible_of_isDigit {c : Char} (h : c.isDigit = true) : isVisible c = true := by
  simp only [Char.isDigit, ge_iff_le, Bool.and_eq_true, decide_eq_true_eq] at h
  have hlow : 48 ≤ c.toNat := h.1
  have hhigh : c.toNat ≤ 57 := h.2
  exact decide_eq_true (by omega)

theorem isPlain_repr (n : ℕ) : isPlain (Nat.repr n).toList = true := by
  rw [Nat.repr, String.toList_ofList]
  refine isPlain_word (List.all_eq_true.mpr fun c hc => ?_)
  exact isVisible_of_isDigit (Nat.isDigit_of_mem_toDigits (by decide) (by decide) hc)

end Text

namespace WorkerBridge

def b64Alphabet : Text :=
  "ABCDEFGHIJKLMNOPQRSTUVWXYZabcdefghijklmnopqrstuvwxyz0123456789+/".toList

def b64Digit (n : ℕ) : Char := b64Alphabet.getD n '='

def b64encode : List UInt8 → Text
  | [] => []
  | [a] => [b64Digit (a.toNat / 4), b64Digit (a.toNat % 4 * 16), '=', '=']
  | [a, b] => [b64Digit (a.toNat / 4), b64Digit (a.toNat % 4 * 16 + b.toNat / 16),
      b64Digit (b.toNat % 16 * 4), '=']
  | a :: b :: c :: rest => b64Digit (a.toNat / 4) :: b64Digit (a.toNat % 4 * 16 + b.toNat / 16) ::
      b64Digit (b.toNat % 16 * 4 + c.toNat / 64) :: b64Digit (c.toNat % 64) :: b64encode rest

theorem b64Digit_visible (n : ℕ) : Text.isVisible (b64Digit n) = true := by
  have hall : ∀ c ∈ '=' :: b64Alphabet, Text.isVisible c = true :=
    List.all_eq_true.mp (by decide)
  refine hall _ ?_
  unfold b64Digit
  rw [List.getD_eq_getElem?_getD]
  cases hget : b64Alphabet[n]? with
  | none => exact List.mem_cons_self
  | some c => exact List.mem_cons_of_mem _ (List.mem_of_getElem? hget)

theorem b64encode_visible (bytes : List UInt8) : (b64encode bytes).all Text.isVisible = true := by
  have hpad : Text.isVisible '=' = true := by decide
  induction bytes using b64encode.induct with
  | case1 => rfl
  | case2 a => simp [b64encode, b64Digit_visible, hpad]
  | case3 a b => simp [b64encode, b64Digit_visible, hpad]
  | case4 a b c rest ih => simpa [b64encode, b64Digit_visible] using ih

theorem b64encode_ne_nil {bytes : List UInt8} (h : bytes ≠ []) : b64encode bytes ≠ [] := by
  cases bytes using b64encode.induct with
  | case1 => exact absurd rfl h
  | case2 | case3 | case4 => exact List.cons_ne_nil _ _

theorem toUTF8_ne_nil {s : String} (h : s ≠ "") : s.toUTF8.data.toList ≠ [] := by
  intro hnil
  have hsize : s.utf8ByteSize = 0 := congrArg List.length hnil
  exact h (String.utf8ByteSize_eq_zero_iff.mp hsize)

inductive AuthType
  | none
  | bearer
  | basic
  deriving DecidableEq

/-- The part of a `WorkerConfig` that makes up its requests. -/
structure WorkerEndpoint where
  endpointUrl : Text
  authType : AuthType
  secretEnv : Option Text
  usernameEnv : Option Text
  passwordEnv : Option Text
  modelName : Text
  defaultSystemPrompt : Option Text

/-- `uuid4().hex`. -/
structure HexId where
  text : Text
  hex : ∀ c ∈ text, c ∈ "0123456789abcdef".toList

theorem HexId.visible (id : HexId) : id.text.all Text.isVisible = true := by
  have hall : ∀ c ∈ "0123456789abcdef".toList, Text.isVisible c = true :=
    List.all_eq_true.mp (by decide)
  exact List.all_eq_true.mpr fun c hc => hall c (id.hex c hc)

/-- The arguments of `WorkerRegistry.call`, besides the worker and the timeout.  A task passes all
of them, a synchronous call the first three. -/
structure CallArgs where
  prompt : Text
  workingDirectory : Option Text
  idempotencyKey : Option Text
  taskId : Option HexId
  dispatchAttemptId : Option HexId
  attemptNumber : Option ℕ
  recoveryAttempt : Option Bool

abbrev Headers := List (Text × Text)

/-- `if value: headers[name] = value`, for each of the names. -/
def headersFor (names : List Text) : Option Text → Headers
  | none => []
  | some value => if value.isEmpty then [] else names.map fun name => (name, value)

namespace WorkerEndpoint

variable (getenv : Text → Option Text) (worker : WorkerEndpoint)

/-- `os.getenv(name or "")`, if it is not empty. -/
def setting (name : Option Text) : Option Text := (getenv (name.getD [])).filter (!·.isEmpty)

def token : Option Text :=
  if worker.authType = .bearer then setting getenv worker.secretEnv else none

def headers : Headers :=
  let headers := [("Content-Type".toList, "application/json".toList)]
  match worker.authType with
  | .bearer =>
    match setting getenv worker.secretEnv with
    | some token => headers ++ [("Authorization".toList, "Bearer ".toList ++ token)]
    | none => headers
  | .basic =>
    let user := getenv (worker.usernameEnv.getD [])
    let password := getenv (worker.passwordEnv.getD [])
    if (setting getenv worker.usernameEnv).isSome ∨ (setting getenv worker.passwordEnv).isSome then
      -- The format writes a variable that is not set as `None`.
      let raw := b64encode (String.ofList (user.getD "None".toList ++ [':'] ++
        password.getD "None".toList)).toUTF8.data.toList
      headers ++ [("Authorization".toList, "Basic ".toList ++ raw)]
    else headers
  | .none => headers

def callHeaders (args : CallArgs) : Headers :=
  worker.headers getenv ++
  headersFor ["X-Bridge-Task-Id".toList] (args.taskId.map HexId.text) ++
  headersFor ["X-Bridge-Idempotency-Key".toList, "Idempotency-Key".toList] args.idempotencyKey ++
  headersFor ["X-Bridge-Dispatch-Attempt-Id".toList, "X-Dispatch-Attempt-ID".toList]
    (args.dispatchAttemptId.map HexId.text) ++
  headersFor ["X-Bridge-Attempt-Number".toList]
    (args.attemptNumber.map fun number => (Nat.repr number).toList) ++
  headersFor ["X-Bridge-Recovery-Attempt".toList]
    (args.recoveryAttempt.map fun recovery => if recovery then "true".toList else "false".toList)

def payload (args : CallArgs) : Json :=
  let message (role content : Text) : Json :=
    .obj [("role".toList, .str role), ("content".toList, .str content)]
  let system := match worker.defaultSystemPrompt with
    | some prompt => if prompt.isEmpty then [] else [message "system".toList prompt]
    | none => []
  let text (key : Text) (value : Option Text) : List (Text × Json) :=
    (value.map fun v => (key, Json.str v)).toList
  let metadata := text "bridge_task_id".toList (args.taskId.map HexId.text) ++
    text "bridge_idempotency_key".toList args.idempotencyKey ++
    text "bridge_dispatch_attempt_id".toList (args.dispatchAttemptId.map HexId.text) ++
    (args.attemptNumber.map fun n => ("bridge_attempt_number".toList, Json.num n)).toList ++
    (args.recoveryAttempt.map fun b => ("bridge_recovery_attempt".toList, Json.bool b)).toList
  .obj ([("model".toList, .str worker.modelName),
      ("messages".toList, .arr (system ++ [message "user".toList args.prompt]))] ++
    text "working_directory".toList args.workingDirectory ++
    if metadata.isEmpty then [] else [("metadata".toList, .obj metadata)])

end WorkerEndpoint

structure OutgoingRequest where
  url : Text
  headers : Headers
  payload : Json

/-- What `httpx.AsyncClient` makes of a request before it sends anything: it may raise on the URL,
on the value of a header and on the payload. -/
structure Client where
  url : Text → Except PyExc Unit
  value : Text → Except PyExc Unit
  payload : Json → Except PyExc Unit

/-- Values of headers are ASCII texts, and words with blanks between them can be sent. -/
structure Client.Documented (client : Client) : Prop where
  ascii : ∀ value, client.value value = .ok () → value.isAscii = true
  plain : ∀ value, Text.isPlain value = true → client.value value = .ok ()

/-- `client.post` up to the network. -/
def buildRequest (client : Client) (getenv : Text → Option Text) (worker : WorkerEndpoint)
    (args : CallArgs) : Except PyExc OutgoingRequest := do
  client.url worker.endpointUrl
  (worker.callHeaders getenv args).forM fun header => client.value header.2
  client.payload (worker.payload args)
  return ⟨worker.endpointUrl, worker.callHeaders getenv args, worker.payload args⟩

/-- `client.post`, where the network would give `exchange`. -/
def post (client : Client) (getenv : Text → Option Text) (worker : WorkerEndpoint)
    (args : CallArgs) (exchange : Exchange) : Exchange :=
  match buildRequest client getenv worker args with
  | .error exc => .raised exc
  | .ok _ => exchange

section Headers

variable {client : Client} {getenv : Text → Option Text} {worker : WorkerEndpoint} {args : CallArgs}

def Client.Takes (client : Client) (headers : Headers) : Prop :=
  ∀ header ∈ headers, client.value header.2 = .ok ()

theorem Client.takes_append {a b : Headers} :
    client.Takes (a ++ b) ↔ client.Takes a ∧ client.Takes b := List.forall_mem_append

theorem Client.takes_headersFor {names : List Text} {value : Option Text}
    (h : ∀ v ∈ value, v ≠ [] → client.value v = .ok ()) : client.Takes (headersFor names value) := by
  unfold headersFor
  cases value with
  | none => exact fun header hheader => absurd hheader List.not_mem_nil
  | some v =>
    simp only
    split
    · exact fun header hheader => absurd hheader List.not_mem_nil
    · next hne =>
      intro header hheader
      obtain ⟨name, -, rfl⟩ := List.mem_map.mp hheader
      exact h v rfl fun hnil => hne (hnil ▸ rfl)

theorem Client.takes_headersFor_iff {names : List Text} {value : Option Text} (hne : names ≠ []) :
    client.Takes (headersFor names value) ↔ ∀ v ∈ value, v ≠ [] → client.value v = .ok () := by
  refine ⟨fun h v hv hvne => ?_, takes_headersFor⟩
  obtain ⟨name, names, rfl⟩ := List.exists_cons_of_ne_nil hne
  refine h (name, v) ?_
  rw [Option.mem_def] at hv
  simp [headersFor, hv, hvne]

theorem takes_headers_iff (hclient : client.Documented) :
    client.Takes (worker.headers getenv) ↔
      ∀ token ∈ worker.token getenv, client.value ("Bearer ".toList ++ token) = .ok () := by
  have hcontent : client.value "application/json".toList = .ok () :=
    hclient.plain _ (Text.isPlain_word (by decide))
  have hbasic (raw : Text) (hraw : raw ≠ []) :
      client.value ("Basic ".toList ++ b64encode (String.ofList raw).toUTF8.data.toList) = .ok () := by
    have hne : String.ofList raw ≠ "" := fun h => hraw (String.ofList_eq_empty_iff.mp h)
    exact hclient.plain _ (Text.isPlain_append (by decide) (by decide)
      (b64encode_ne_nil (toUTF8_ne_nil hne)) (b64encode_visible _))
  unfold WorkerEndpoint.headers WorkerEndpoint.token Client.Takes
  cases worker.authType with
  | none =>
    simp only [List.forall_mem_singleton, hcontent, reduceCtorEq, if_false, true_iff]
    nofun
  | basic =>
    simp only [reduceCtorEq, if_false]
    split
    · simp only [List.forall_mem_append, List.forall_mem_singleton, hcontent, true_and]
      refine iff_of_true (hbasic _ ?_) nofun
      rw [List.append_assoc]
      exact List.append_ne_nil_of_right_ne_nil _ (List.cons_ne_nil _ _)
    · simp only [List.forall_mem_singleton, hcontent, true_iff]
      nofun
  | bearer =>
    cases WorkerEndpoint.setting getenv worker.secretEnv with
    | none =>
      simp only [List.forall_mem_singleton, hcontent, if_true, true_iff]
      nofun
    | some token =>
      simp only [List.forall_mem_append, List.forall_mem_singleton, hcontent, true_and,
        if_true, Option.mem_def, Option.some.injEq, forall_eq']

theorem takes_callHeaders_iff (hclient : client.Documented) :
    client.Takes (worker.callHeaders getenv args) ↔
      (∀ token ∈ worker.token getenv, client.value ("Bearer ".toList ++ token) = .ok ()) ∧
        ∀ key ∈ args.idempotencyKey, key ≠ [] → client.value key = .ok () := by
  have hid (id : Option HexId) : ∀ v ∈ id.map HexId.text, v ≠ [] → client.value v = .ok () := by
    intro v hv _
    obtain ⟨id, -, rfl⟩ := Option.map_eq_some_iff.mp hv
    exact hclient.plain _ (Text.isPlain_word id.visible)
  have hnumber : ∀ v ∈ args.attemptNumber.map fun n => (Nat.repr n).toList,
      v ≠ [] → client.value v = .ok () := by
    intro v hv _
    obtain ⟨n, -, rfl⟩ := Option.map_eq_some_iff.mp hv
    exact hclient.plain _ (Text.isPlain_repr n)
  have hrecovery : ∀ v ∈ args.recoveryAttempt.map fun recovery =>
      if recovery then "true".toList else "false".toList, v ≠ [] → client.value v = .ok () := by
    intro v hv _
    obtain ⟨recovery, -, rfl⟩ := Option.map_eq_some_iff.mp hv
    refine hclient.plain _ (Text.isPlain_word ?_)
    cases recovery <;> decide
  unfold WorkerEndpoint.callHeaders
  simp only [Client.takes_append, takes_headers_iff hclient,
    Client.takes_headersFor_iff (List.cons_ne_nil _ _)]
  constructor
  · rintro ⟨⟨⟨⟨⟨htoken, -⟩, hkey⟩, -⟩, -⟩, -⟩
    exact ⟨htoken, hkey⟩
  · rintro ⟨htoken, hkey⟩
    exact ⟨⟨⟨⟨⟨htoken, hid _⟩, hkey⟩, hid _⟩, hnumber⟩, hrecovery⟩

theorem forM_eq_ok {headers : Headers} :
    (headers.forM fun header => client.value header.2) = .ok () ↔ client.Takes headers := by
  induction headers with
  | nil => exact iff_of_true rfl fun header hheader => absurd hheader List.not_mem_nil
  | cons header headers ih =>
    rw [List.forM_eq_forM, List.forM_cons]
    cases hvalue : client.value header.2 with
    | error exc =>
      refine iff_of_false (fun h => by cases h) fun h => ?_
      rw [h header List.mem_cons_self] at hvalue
      cases hvalue
    | ok u =>
      refine Iff.trans ih ?_
      unfold Client.Takes
      rw [List.forall_mem_cons, hvalue]
      exact (and_iff_right rfl).symm

structure Client.Builds (client : Client) (getenv : Text → Option Text) (worker : WorkerEndpoint)
    (args : CallArgs) : Prop where
  url : client.url worker.endpointUrl = .ok ()
  payload : client.payload (worker.payload args) = .ok ()
  token : ∀ token ∈ worker.token getenv, client.value ("Bearer ".toList ++ token) = .ok ()
  key : ∀ key ∈ args.idempotencyKey, key ≠ [] → client.value key = .ok ()

/-- The client takes no key that is not ASCII. -/
theorem Client.Builds.key_ascii (h : client.Builds getenv worker args)
    (hclient : client.Documented) : ∀ key ∈ args.idempotencyKey, key.isAscii = true := by
  intro key hkey
  by_cases hne : key = []
  · rw [hne]
    rfl
  · exact hclient.ascii key (h.key key hkey hne)

theorem buildRequest_eq_error (hclient : client.Documented) :
    (∃ exc, buildRequest client getenv worker args = .error exc) ↔
      ¬ client.Builds getenv worker args := by
  have hbuilds : client.Builds getenv worker args ↔ client.url worker.endpointUrl = .ok () ∧
      client.Takes (worker.callHeaders getenv args) ∧
        client.payload (worker.payload args) = .ok () := by
    rw [takes_callHeaders_iff hclient]
    exact ⟨fun ⟨hurl, hpayload, htoken, hkey⟩ => ⟨hurl, ⟨htoken, hkey⟩, hpayload⟩,
      fun ⟨hurl, ⟨htoken, hkey⟩, hpayload⟩ => ⟨hurl, hpayload, htoken, hkey⟩⟩
  rw [hbuilds, ← forM_eq_ok]
  unfold buildRequest
  cases client.url worker.endpointUrl with
  | error exc => exact iff_of_true ⟨exc, rfl⟩ nofun
  | ok u =>
    cases (worker.callHeaders getenv args).forM fun header => client.value header.2 with
    | error exc => exact iff_of_true ⟨exc, rfl⟩ nofun
    | ok u =>
      cases client.payload (worker.payload args) with
      | error exc => exact iff_of_true ⟨exc, rfl⟩ nofun
      | ok u => exact iff_of_false (by rintro ⟨exc, h⟩; cases h) (not_not_intro ⟨rfl, rfl, rfl⟩)

end Headers

/-- The failures of a circuit have not gone up, and it is open only if it was. -/
structure CircuitState.Spared (now : ℚ) (before after : CircuitState) : Prop where
  failures : after.failures ≤ before.failures
  opened : now < after.downUntil → now < before.downUntil

section Spared

variable (client : Client) (statusError : HttpResponse → PyExc)
  (getenv : Text → Option Text) (worker : WorkerEndpoint) (args : CallArgs) (exchange : Exchange)
  (reg : WorkerRegistry) (now : ℚ) (metrics : MetricsRegistry) (workerId : String)

/-- A call that fails before the network leaves the circuit of its worker alone. -/
def SparesBuild : Prop :=
  (∃ exc, buildRequest client getenv worker args = .error exc) →
    (reg.circuits workerId).Spared now
      ((reg.receive now metrics workerId
        ((post client getenv worker args exchange).data statusError)).1.1.circuits workerId)

theorem SparesBuild.builds {client statusError getenv worker args exchange reg now metrics workerId}
    (h : SparesBuild client statusError getenv worker args exchange reg now metrics workerId) :
    ¬ ∃ exc, buildRequest client getenv worker args = .error exc := by
  rintro ⟨exc, hexc⟩
  have hspared := (h ⟨exc, hexc⟩).failures
  simp only [WorkerRegistry.receive_eq, Function.update_self, post, hexc, Exchange.data,
    WorkerRegistry.received, WorkerRegistry.failed] at hspared
  omega

/-- A failure before the network spares the circuit if and only if there can be none: the client
takes the URL, the payload, the bearer token and the key of the client. -/
theorem spares_build_iff (hclient : client.Documented) :
    SparesBuild client statusError getenv worker args exchange reg now metrics workerId ↔
      client.Builds getenv worker args := by
  constructor
  · intro h
    by_contra hbad
    exact h.builds ((buildRequest_eq_error hclient).mpr hbad)
  · intro hbuilds hfails
    exact absurd hbuilds ((buildRequest_eq_error hclient).mp hfails)

end Spared

/-- As many calls in a row whose requests cannot be built as the threshold open the circuit to
everyone. -/
theorem unbuilt_open {workers : List WorkerConfig} {breaker : CircuitBreakerConfig} {s s' : Traffic}
    {r : ℕ} {workerId : String} {reg : WorkerRegistry} {client : Client}
    {statusError : HttpResponse → PyExc} {getenv : Text → Option Text} {worker : WorkerEndpoint}
    {calls : List (CallArgs × Exchange)}
    (hs : (Traffic.machine workers breaker).Reachable Runs.anyStep s)
    (hreg : s.registries[r]? = some reg) (hlen : calls.length = reg.breaker.failureThreshold)
    (hfails : ∀ call ∈ calls, ∃ exc, buildRequest client getenv worker call.1 = .error exc)
    (h : InTurn (Traffic.machine workers breaker) statusError r workerId s
      (calls.map fun call => post client getenv worker call.1 call.2) s') : s'.Open r workerId := by
  have hraised : ∀ exchange ∈ calls.map fun call => post client getenv worker call.1 call.2,
      ∃ exc, exchange = .raised exc := by
    intro exchange hexchange
    obtain ⟨call, hcall, rfl⟩ := List.mem_map.mp hexchange
    obtain ⟨exc, hexc⟩ := hfails call hcall
    exact ⟨exc, by simp only [post, hexc]⟩
  refine (Traffic.open_iff_of_inTurn (Traffic.now_nonneg hs) hreg ?_ ?_ h).mpr ?_
  · rw [List.length_map, hlen]
  · intro exchange hexchange
    obtain ⟨exc, rfl⟩ := hraised exchange hexchange
    exact ⟨exc, rfl⟩
  · intro exchange hexchange
    obtain ⟨exc, rfl⟩ := hraised exchange (List.mem_of_mem_tail hexchange)
    rfl

namespace Sample

def endpoint : WorkerEndpoint where
  endpointUrl := "http://worker/v1/chat/completions".toList
  authType := .none
  secretEnv := none
  usernameEnv := none
  passwordEnv := none
  modelName := "m".toList
  defaultSystemPrompt := none

def keyed (key : Text) : CallArgs :=
  ⟨prompt, some "/srv".toList, some key, none, none, none, none⟩

end Sample

namespace Sample

def isBreak (c : Char) : Bool := decide (c.toNat = 0 ∨ (10 ≤ c.toNat ∧ c.toNat ≤ 13))

def isBlank (c : Char) : Bool := decide (c = ' ' ∨ c = '\t')

/-- A client that encodes the values of headers as ASCII and sends what HTTP/1.1 has for them. -/
def client : Client where
  url _ := .ok ()
  value t :=
    if !t.isAscii then .error (.other "UnicodeEncodeError".toList [])
    else if t.any isBreak || t.head?.any isBlank || t.getLast?.any isBlank then
      .error (.other "LocalProtocolError".toList "Illegal header value".toList)
    else .ok ()
  payload _ := .ok ()

theorem client_documented : client.Documented where
  ascii value h := by
    cases hascii : value.isAscii with
    | true => rfl
    | false =>
      change (if !value.isAscii then _ else _) = _ at h
      rw [hascii] at h
      cases h
  plain value h := by
    unfold Text.isPlain at h
    simp only [Bool.and_eq_true, List.all_eq_true, Option.all_eq_true, Bool.or_eq_true,
      beq_iff_eq] at h
    obtain ⟨⟨hall, hhead⟩, hlast⟩ := h
    have hvisible : ∀ c, Text.isVisible c = true → 0x21 ≤ c.toNat ∧ c.toNat ≤ 0x7E :=
      fun c hc => of_decide_eq_true hc
    have hascii : value.isAscii = true := by
      refine List.all_eq_true.mpr fun c hc => decide_eq_true ?_
      rcases hall c hc with hc | rfl
      · have hrange := hvisible c hc
        omega
      · decide
    have hbreak : value.any isBreak = false := by
      refine List.any_eq_false.mpr fun c hc hbreak => ?_
      rcases hall c hc with hc | rfl
      · have hrange := hvisible c hc
        have hcode := of_decide_eq_true hbreak
        omega
      · exact absurd hbreak (by decide)
    have hblank : ∀ c, Text.isVisible c = true → isBlank c = false := by
      intro c hc
      refine decide_eq_false ?_
      rintro (rfl | rfl) <;> exact absurd hc (by decide)
    have hedge : ∀ o : Option Char, (∀ c ∈ o, Text.isVisible c = true) → o.any isBlank = false := by
      intro o ho
      cases o with
      | none => rfl
      | some c => exact hblank c (ho c rfl)
    show (if !value.isAscii then _ else if value.any isBreak || value.head?.any isBlank ||
      value.getLast?.any isBlank then _ else _) = _
    rw [hascii, hbreak, hedge _ hhead, hedge _ hlast]
    rfl

end Sample

/-- A key of ordinary letters. -/
theorem spares_build_iff_letters : SparesBuild Sample.client Sample.statusError (fun _ => none)
    Sample.endpoint (Sample.keyed "order-17".toList) (.response ⟨200, .ok (.obj [])⟩)
    (.new Sample.workers Sample.breaker) 0 .zero "w" := by
  refine (spares_build_iff _ _ _ _ _ _ _ _ _ _ Sample.client_documented).mpr ⟨rfl, rfl, nofun, ?_⟩
  rintro key ⟨⟩ -
  rfl

/-- The key `é`, on a worker that would answer. -/
theorem accented_key_counts : ¬ SparesBuild Sample.client Sample.statusError (fun _ => none)
    Sample.endpoint (Sample.keyed ['é']) (.response ⟨200, .ok (.obj [])⟩)
    (.new Sample.workers Sample.breaker) 0 .zero "w" := by
  intro h
  refine h.builds ((buildRequest_eq_error Sample.client_documented).mpr fun hbuilds => ?_)
  exact absurd (hbuilds.key_ascii Sample.client_documented ['é'] rfl) (by decide)

end WorkerBridge
