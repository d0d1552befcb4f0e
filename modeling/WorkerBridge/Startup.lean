import WorkerBridge.Floats
import WorkerBridge.Numerals
import WorkerBridge.Stopping

namespace WorkerBridge.Watchdog

/-- What the program takes from the interpreter: its version of Unicode, and `str` of a float. -/
structure Interpreter where
  unicode : Text.Unicode
  str : Float → Text

/-- `WatchdogConfig` with the floats of the program. -/
structure FloatConfig where
  baseUrl : Text
  apiKey : Text
  pollInterval : Float
  timeoutSeconds : Float
  requestTimeout : Float
  maxTransientErrors : ℤ

def defaultPollInterval : Float := 2.0

def defaultTimeoutSeconds : Float := 1800.0

def defaultRequestTimeout : Float := 15.0

def defaultMaxTransientErrors : ℤ := 5

def configError (message : Text) : Raised := .watchdog (.config message)

/-- The characters at which `str.splitlines` ends a line. -/
def isLineBreak (c : Char) : Bool :=
  let n := c.toNat
  (0x0A ≤ n && n ≤ 0x0D) || (0x1C ≤ n && n ≤ 0x1E) || n == 0x85 || n == 0x2028 || n == 0x2029

def splitlines : Text → List Text
  | [] => []
  | '\r' :: '\n' :: rest => [] :: splitlines rest
  | c :: rest =>
    if isLineBreak c then [] :: splitlines rest
    else
      match splitlines rest with
      | [] => [[c]]
      | line :: lines => (c :: line) :: lines

def doubleQuote : Char := Char.ofNat 0x22

def singleQuote : Char := Char.ofNat 0x27

/-- `t.strip(c)`. -/
def stripChar (c : Char) (t : Text) : Text := (t.dropWhile (· == c)).rdropWhile (· == c)

/-- The values so far, the last first, and those of one more line. -/
def parseEnvLine (values : List (Text × Text)) (rawLine : Text) : List (Text × Text) :=
  let line := rawLine.strip
  if line = [] ∨ line.head? = some '#' ∨ '=' ∉ line then values
  else
    let key := Text.strip (line.takeWhile (· != '='))
    let value := Text.strip (line.dropWhile (· != '=')).tail
    if key = [] then values else (key, stripChar singleQuote (stripChar doubleQuote value)) :: values

inductive EnvFile
  | missing
  | unreadable (raised : Raised)
  | content (text : Text)

def parseEnvFile : EnvFile → Except Raised (List (Text × Text))
  | .missing => .ok []
  | .unreadable raised => .error raised
  | .content text => .ok ((splitlines text).foldl parseEnvLine [])

variable (interp : Interpreter) (environ : Text → Option Text)

def getSetting (name : Text) (fileValues : List (Text × Text)) (default : Option Text) :
    Option Text :=
  match environ name with
  | some value => some value
  | none =>
    match fileValues.lookup name with
    | some value => some value
    | none => default

def parseFloat (name : Text) (value : Option Text) (default minimum : Float) :
    Except Raised Float :=
  match value with
  | none | some [] => .ok default
  | some value =>
    match Text.float interp.unicode value with
    | none => .error (configError (name ++ " must be a number".toList))
    | some parsed =>
      if parsed < minimum then
        .error (configError (name ++ " must be >= ".toList ++ interp.str minimum))
      else .ok parsed

def parseInt (name : Text) (value : Option Text) (default minimum : ℤ) : Except Raised ℤ :=
  match value with
  | none | some [] => .ok default
  | some value =>
    match Text.int interp.unicode value with
    | none => .error (configError (name ++ " must be an integer".toList))
    | some parsed =>
      if parsed < minimum then
        .error (configError (name ++ " must be >= ".toList ++ (toString minimum).toList))
      else .ok parsed

def buildBaseUrl (host : Text) (port : Option Text) : Except Raised Text :=
  let host := host.strip.rdropWhile (· == '/')
  if host = [] then .error (configError "AI_BRIDGE_MCP_HOST is required".toList)
  else
    let host := if Text.has host "://".toList then host else "http://".toList ++ host
    match port with
    | none | some [] => .ok host
    | some port =>
      let port := port.strip
      if port = [] ∨ ¬ port.all interp.unicode.isDigit then
        .error (configError "AI_BRIDGE_PORT must be numeric when provided".toList)
      else .ok (host ++ ":".toList ++ port)

/-- The least number of seconds of the three settings that are times. -/
def minimumSeconds : Float := 0.1

def loadConfig (file : EnvFile) : Except Raised FloatConfig := do
  let fileValues ← parseEnvFile file
  let setting := fun name default => getSetting environ name fileValues default
  let port := setting "AI_BRIDGE_PORT".toList none
  let apiKey := setting "AI_BRIDGE_READ_KEY".toList (some [])
  match setting "AI_BRIDGE_MCP_HOST".toList none with
  | none | some [] =>
    .error (configError "AI_BRIDGE_MCP_HOST is required via environment or .env".toList)
  | some host =>
    let baseUrl ← buildBaseUrl interp host port
    let pollInterval ← parseFloat interp "AI_BRIDGE_POLL_INTERVAL".toList
      (setting "AI_BRIDGE_POLL_INTERVAL".toList none) defaultPollInterval minimumSeconds
    let timeoutSeconds ← parseFloat interp "AI_BRIDGE_TIMEOUT_SECONDS".toList
      (setting "AI_BRIDGE_TIMEOUT_SECONDS".toList none) defaultTimeoutSeconds minimumSeconds
    let requestTimeout ← parseFloat interp "AI_BRIDGE_REQUEST_TIMEOUT".toList
      (setting "AI_BRIDGE_REQUEST_TIMEOUT".toList none) defaultRequestTimeout minimumSeconds
    let maxTransientErrors ← parseInt interp "AI_BRIDGE_MAX_TRANSIENT_ERRORS".toList
      (setting "AI_BRIDGE_MAX_TRANSIENT_ERRORS".toList none) defaultMaxTransientErrors 1
    .ok ⟨baseUrl, apiKey.getD [], pollInterval, timeoutSeconds, requestTimeout,
      maxTransientErrors⟩

/-- The text of each argument, as `argparse` finds it. -/
structure CommandLine where
  taskId : Text
  envFile : Option Text
  interval : Option Text
  timeout : Option Text
  requestTimeout : Option Text
  maxTransientErrors : Option Text

structure Args where
  taskId : Text
  envFile : Text
  interval : Option Float
  timeout : Option Float
  requestTimeout : Option Float
  maxTransientErrors : Option ℤ

/-- An option of a type; `none` is the usage error. -/
def optional {α : Type} (type : Text → Option α) : Option Text → Option (Option α)
  | none => some none
  | some t => (type t).map some

def parseArgs (line : CommandLine) : Option Args := do
  let interval ← optional (Text.float interp.unicode) line.interval
  let timeout ← optional (Text.float interp.unicode) line.timeout
  let requestTimeout ← optional (Text.float interp.unicode) line.requestTimeout
  let maxTransientErrors ← optional (Text.int interp.unicode) line.maxTransientErrors
  some ⟨line.taskId, line.envFile.getD ".env".toList, interval, timeout, requestTimeout,
    maxTransientErrors⟩

def configWithOverrides (config : FloatConfig) (args : Args) : FloatConfig where
  baseUrl := config.baseUrl
  apiKey := config.apiKey
  pollInterval := args.interval.getD config.pollInterval
  timeoutSeconds := args.timeout.getD config.timeoutSeconds
  requestTimeout := args.requestTimeout.getD config.requestTimeout
  maxTransientErrors := args.maxTransientErrors.getD config.maxTransientErrors

/-- The config that `main` passes to `wait_for_task`, when the command line has no usage error. -/
def mainConfig (files : Text → EnvFile) (line : CommandLine) :
    Option (Except Raised FloatConfig) :=
  (parseArgs interp line).map fun args =>
    (loadConfig interp environ (files args.envFile)).map (configWithOverrides · args)

end WorkerBridge.Watchdog
