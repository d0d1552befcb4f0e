import WorkerBridge.Config
import WorkerBridge.TaskState
import WorkerBridge.PosixPath
import WorkerBridge.Glob

namespace WorkerBridge

/-- What `str(value)` can raise: a `ValueError` for an integer of too many digits,
a `RecursionError` for a value nested too deep. -/
inductive StrError
  | valueError (message : Text)
  | recursionError (message : Text)

def StrError.exc : StrError → PyExc
  | valueError message => .other "ValueError".toList message
  | recursionError message => .other "RecursionError".toList message

/-- What `yaml.safe_load` returns, as far as the code can tell values apart.
`text` is `str(value)`. -/
inductive YamlValue
  | none
  | str (s : Text)
  | dict (entries : List (YamlValue × YamlValue)) (text : Except StrError Text)
  | other (truthy : Bool) (text : Except StrError Text)

namespace YamlValue

def truthy : YamlValue → Bool
  | none => false
  | str s => !s.isEmpty
  | dict entries _ => !entries.isEmpty
  | other b _ => b

def text : YamlValue → Except StrError Text
  | none => .ok "None".toList
  | str s => .ok s
  | dict _ t => t
  | other _ t => t

def isKey (key : Text) : YamlValue → Bool
  | str s => decide (s = key)
  | _ => false

def get (entries : List (YamlValue × YamlValue)) (key : Text) : YamlValue :=
  match entries.find? fun entry => entry.1.isKey key with
  | some entry => entry.2
  | Option.none => none

end YamlValue

structure RealPath where
  parts : List Text
  isSegment : ∀ p ∈ parts, PosixPath.IsSegment p
  dot_not_mem : PosixPath.dot ∉ parts
  dotdot_not_mem : PosixPath.dotdot ∉ parts

namespace RealPath

def str (path : RealPath) : Text := '/' :: PosixPath.join path.parts

/-- `ancestor == path or ancestor in path.parents`. -/
def within (path ancestor : RealPath) : Bool := decide (ancestor.parts <+: path.parts)

end RealPath

/-- The exceptions of `Path.resolve(strict=True)`. -/
inductive ResolveError
  | osError
  | runtimeError
  | valueError (message : Text)

/-- `yaml.safe_load` and `Path.resolve` come from outside. -/
structure Host where
  /-- `none` is `yaml.YAMLError`. -/
  safeLoad : Text → Option YamlValue
  resolve : Text → Except ResolveError RealPath

/-- `[ \t]` -/
def isBlank (c : Char) : Bool := c == ' ' || c == '\t'

/-- `[ \t]*---[ \t]*` -/
def delimiter (t : Text) : Option Text :=
  match t.dropWhile isBlank with
  | '-' :: '-' :: '-' :: rest => some (rest.dropWhile isBlank)
  | _ => none

/-- `\r?\n` -/
def newline : Text → Option Text
  | '\r' :: '\n' :: rest => some rest
  | '\n' :: rest => some rest
  | _ => none

/-- `(?:\r?\n)[ \t]*---[ \t]*(?:\r?\n|\Z)` -/
def closes (t : Text) : Bool :=
  match (newline t).bind delimiter with
  | some rest => rest.isEmpty || (newline rest).isSome
  | none => false

/-- `(?P<body>.*?)` up to the first place where the block closes. -/
def frontmatterBody : Text → Option Text
  | [] => none
  | c :: rest => if closes (c :: rest) then some [] else (frontmatterBody rest).map (c :: ·)

def dropByteOrderMark : Text → Text
  | '\uFEFF' :: rest => rest
  | t => t

def frontmatterMatch (prompt : Text) : Option Text :=
  ((delimiter (dropByteOrderMark prompt)).bind newline).bind frontmatterBody

def invalidFrontmatter : PyExc := .invalidWorkingDirectory "<invalid frontmatter>".toList []

def frontmatterValue (host : Host) (prompt : Text) : Except PyExc YamlValue :=
  match frontmatterMatch prompt with
  | none => .ok .none
  | some body =>
    match host.safeLoad body with
    | none => .error invalidFrontmatter
    | some loaded =>
      if loaded.truthy then
        match loaded with
        | .dict entries _ => .ok (YamlValue.get entries "working_directory".toList)
        | _ => .error invalidFrontmatter
      else .ok .none

def extractWorkingDirectory (host : Host) (prompt : Text) : Except PyExc (Option Text) :=
  match frontmatterValue host prompt with
  | .error exc => .error exc
  | .ok .none => .ok none
  | .ok (.str s) =>
    if Text.strip s = [] then .error (.invalidWorkingDirectory s []) else .ok (some (Text.strip s))
  | .ok value =>
    match value.text with
    | .ok text => .error (.invalidWorkingDirectory text [])
    | .error e => .error e.exc

def starSegment : Text := ['*']

def safeNormalize (path : Text) : Option Text :=
  if PosixPath.absolute path then
    if PosixPath.dotdot ∈ PosixPath.segments path then none else some (PosixPath.normpath path)
  else none

def matchParts (patternParts candidateParts : List Text) : Bool :=
  Glob.prefixMatch starSegment patternParts candidateParts

def wildcardPrefixMatches (pattern candidate : Text) : Bool :=
  matchParts (PosixPath.segments pattern) (PosixPath.segments candidate)

/-- One turn of the loop of `path_is_allowed` without `canonicalize`. -/
def lexicallyAllows (normalizedCandidate allowed : Text) : Bool :=
  if PosixPath.absolute allowed then
    match safeNormalize allowed with
    | none => false
    | some normalizedAllowed =>
      if '*' ∈ normalizedAllowed then wildcardPrefixMatches normalizedAllowed normalizedCandidate
      else
        decide (normalizedAllowed = ['/']) || decide (normalizedCandidate = normalizedAllowed) ||
          decide (normalizedAllowed.rdropWhile (fun c => c == '/') ++ ['/'] <+: normalizedCandidate)
  else false

/-- The loop of `_canonical_path_is_allowed`; a `ValueError` is not caught. -/
def canonicallyAllows (host : Host) (resolvedCandidate : RealPath) : List Text → Except PyExc Bool
  | [] => .ok false
  | allowed :: rest =>
    if PosixPath.absolute allowed ∧ '*' ∉ allowed then
      match safeNormalize allowed with
      | none => canonicallyAllows host resolvedCandidate rest
      | some normalizedAllowed =>
        match host.resolve normalizedAllowed with
        | .error (.valueError message) => .error (.other "ValueError".toList message)
        | .error _ => canonicallyAllows host resolvedCandidate rest
        | .ok resolvedAllowed =>
          if resolvedAllowed.parts = [] ∨ resolvedCandidate.within resolvedAllowed then .ok true
          else canonicallyAllows host resolvedCandidate rest
    else canonicallyAllows host resolvedCandidate rest

def canonicalPathIsAllowed (host : Host) (candidate : Text) (allowedPaths : List Text) :
    Except PyExc Bool :=
  if '*' ∈ candidate then .ok false
  else match host.resolve candidate with
    | .error (.valueError message) => .error (.other "ValueError".toList message)
    | .error _ => .ok false
    | .ok resolvedCandidate => canonicallyAllows host resolvedCandidate allowedPaths

def pathIsAllowed (host : Host) (candidate : Text) (allowedPaths : List Text)
    (canonicalize : Bool) : Except PyExc Bool :=
  match safeNormalize candidate with
  | none => .ok false
  | some normalizedCandidate =>
    if canonicalize then canonicalPathIsAllowed host normalizedCandidate allowedPaths
    else .ok (allowedPaths.any (lexicallyAllows normalizedCandidate))

def normalizeForDispatch (host : Host) (path : Text) (canonicalize : Bool) :
    Except ResolveError Text :=
  match safeNormalize path with
  | none => .ok path
  | some normalized =>
    if canonicalize then (host.resolve normalized).map RealPath.str
    else .ok (PosixPath.normpath normalized)

def resolveWorkingDirectory (host : Host) (worker : WorkerConfig) (prompt : Text) :
    Except PyExc Text :=
  match extractWorkingDirectory host prompt with
  | .error exc => .error exc
  | .ok none => .error .missingWorkingDirectory
  | .ok (some requested) =>
    let allowedPaths := worker.filesystem.write
    let canonicalize := worker.filesystem.canonicalize
    match pathIsAllowed host requested allowedPaths canonicalize with
    | .error exc => .error exc
    | .ok false => .error (.invalidWorkingDirectory requested allowedPaths)
    | .ok true =>
      match normalizeForDispatch host requested canonicalize with
      | .ok directory => .ok directory
      | .error (.valueError message) => .error (.other "ValueError".toList message)
      | .error _ => .error (.invalidWorkingDirectory requested allowedPaths)

end WorkerBridge
