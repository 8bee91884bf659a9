import AzdSanta.Common.Processes
import AzdSanta.Setup.Host

/-! `run` of the host program: any number of calls of it, and the command they start.
A check that fails, an error and a time limit all end a call where it stands. -/
namespace Setup
open Python Processes

/-- How a call is made: the user, and the two variables of the environment. -/
structure Call where
  euid : ℕ
  request : Text
  operation : Text
  deriving DecidableEq

/-- The files of a context's folder. -/
inductive File where
  | request
  | attempt
  | stdout
  | stderr
  | exit
  | sealed
  deriving DecidableEq

/-- What `private_path` is asked about. -/
inductive Path where
  | store
  | folder (context : Text)
  | file (context : Text) (name : File)

inductive Op where
  | attestMetadata (binding : Members)
  | attestRuntime (request : Request)
  | storeExists
  | makeStore
  | privatePath (path : Path)
  | makeFolder (context : Text)
  | openNew (context : Text) (name : File)
  | write (context : Text) (name : File) (raw : Bytes)
  | read (context : Text) (name : File)
  | exists (context : Text) (name : File)
  | operatorAccess (context : Text)
  | wait (context : Text)
  | readArtifact (web context : Text)
  | print (context line : Text)

inductive Reply where
  | done
  | yes (b : Bool)
  | count (n : ℕ)
  | bytes (b : Bytes)
  | text (t : Text)
  | code (n : ℤ)

inductive Event where
  | reserved (context : Text)
  /-- The file has this content from now on. -/
  | stored (context : Text) (name : File) (content : Bytes)
  | started (context : Text)
  | printed (context line : Text)
  deriving DecidableEq

structure Entry where
  process : ℕ
  call : Call
  event : Event
  deriving DecidableEq

/-- What `operator_access` is going to write, and how much of it is there. -/
structure Artifact where
  json : Bytes
  size : ℕ

def Artifact.content (a : Artifact) : Bytes := (a.json ++ [10]).take a.size

/-- The disk, and a log of what was done, the last entry in front. -/
structure Disk where
  store : Bool
  folders : List Text
  files : Text → File → Option Bytes
  artifacts : Text → Option Artifact
  log : List Entry

def Disk.empty : Disk := ⟨false, [], fun _ _ => none, fun _ => none, []⟩

def Disk.enter (s : Disk) (n : ℕ) (k : Call) (e : Event) : Disk := { s with log := ⟨n, k, e⟩ :: s.log }

def Disk.put (s : Disk) (context : Text) (name : File) (content : Bytes) : Disk :=
  { s with files := fun c f => if c = context ∧ f = name then some content else s.files c f }

def Disk.has (s : Disk) : Path → Bool
  | .store => s.store
  | .folder context => context ∈ s.folders
  | .file context name => (s.files context name).isSome

/-- What a call into the system does. The answers of the metadata service and of Docker, the code the
command ends with and what it prints are whatever they are. -/
def effect (n : ℕ) (k : Call) (op : Op) (r : Reply) (s : Disk) : Option Disk :=
  match op, r with
  | .attestMetadata _, .done => some s
  | .attestRuntime _, .text _ => some s
  | .storeExists, .yes b => if b = s.store then some s else none
  | .makeStore, .yes b => if b = !s.store then some { s with store := true } else none
  | .privatePath path, .yes b => if b → s.has path then some s else none
  | .makeFolder context, .yes b =>
    if b = decide (context ∉ s.folders) then
      some (if b then { s with folders := context :: s.folders }.enter n k (.reserved context) else s)
    else none
  | .openNew context name, .yes b =>
    if b = (s.files context name).isNone then
      some (if b then (s.put context name []).enter n k (.stored context name []) else s)
    else none
  | .write context name raw, .count size =>
    match s.files context name with
    | some content =>
      let content' := content ++ raw.take size
      if 0 < size ∧ size ≤ raw.length then some ((s.put context name content').enter n k (.stored context name content'))
      else none
    | none => none
  | .read _ .stdout, .bytes _ => some s
  | .read context name, .bytes content => if s.files context name = some content then some s else none
  | .exists context name, .yes b => if b = (s.files context name).isSome then some s else none
  | .operatorAccess context, .done => some (s.enter n k (.started context))
  | .wait _, .code _ => some s
  | .readArtifact _ context, .bytes raw =>
    match s.artifacts context with
    | some artifact => if raw <+: artifact.content ∧ raw.length ≤ 2602 then some s else none
    | none => none
  | .print context line, .done => some (s.enter n k (.printed context line))
  | _, _ => none

section Calls

def done (op : Op) : Prog Op Reply Unit := invoke op fun
  | .done => some ()
  | _ => none

def ask (op : Op) : Prog Op Reply Bool := invoke op fun
  | .yes b => some b
  | _ => none

def askText (op : Op) : Prog Op Reply Text := invoke op fun
  | .text t => some t
  | _ => none

def askBytes (op : Op) : Prog Op Reply Bytes := invoke op fun
  | .bytes b => some b
  | _ => none

def askCount (op : Op) : Prog Op Reply ℕ := invoke op fun
  | .count n => some n
  | _ => none

def askCode (op : Op) : Prog Op Reply ℤ := invoke op fun
  | .code n => some n
  | _ => none

end Calls

def marker : Text := text "SANTA_SEALED_SETUP_JSON:"

/-- `private_path`. -/
def privatePath (path : Path) : Prog Op Reply Unit := do
  let safe ← ask (.privatePath path)
  need (safe = true)

def openNew (context : Text) (name : File) : Prog Op Reply Unit := do
  let opened ← ask (.openNew context name)
  need (opened = true)

/-- `write_new`. -/
def writeNew (context : Text) (name : File) (raw : Bytes) : Prog Op Reply Unit := do
  openNew context name
  writeAll (fun rest => askCount (.write context name rest)) raw.length raw

/-- The spaces of `bytes.strip`. -/
def isSpaceByte (b : UInt8) : Bool := (9 ≤ b.toNat && b.toNat ≤ 13) || b.toNat = 32

def stripBytes (raw : Bytes) : Bytes := (raw.dropWhile isSpaceByte).rdropWhile isSpaceByte

/-- `read_artifact`. -/
def Host.readArtifact (h : Host) (web : Text) (request : Request) : Prog Op Reply Bytes := do
  let raw ← askBytes (.readArtifact web request.contextSha256)
  ofOption (h.envelope (.bytes (stripBytes raw)) request)

/-- The lines of the command's output that carry an envelope. -/
def markedRecords (output : Text) : List Text :=
  ((splitlines output).filter fun line => marker <+: line).map (·.drop marker.length)

/-- The branch of `create`. -/
def Host.create (h : Host) (request : Request) (raw : Bytes) (web : Text) : Prog Op Reply Bytes := do
  let context := request.contextSha256
  let reserved ← ask (.makeFolder context)
  need (reserved = true)
  writeNew context .request raw
  let attempt ← ofOption (h.encoded (.obj [(text "state", .str (text "mutation-may-have-started")),
    (text "container", .str web)]))
  writeNew context .attempt attempt
  openNew context .stdout
  openNew context .stderr
  done (.operatorAccess context)
  let code ← askCode (.wait context)
  let exit ← ofOption (h.encoded (.obj [(text "returncode", .int code)]))
  writeNew context .exit exit
  need (code = 0)
  let output ← askBytes (.read context .stdout)
  need (output.length ≤ 16384)
  let decoded ← ofOption (decodeUtf8 false output)
  match markedRecords decoded with
  | [record] => do
    let sealed ← ofOption (h.envelope (.str record) request)
    let artifact ← h.readArtifact web request
    need (artifact = sealed)
    writeNew context .sealed sealed
    return sealed
  | _ => .fail

/-- The branch of `readback`. -/
def Host.readback (h : Host) (request : Request) (raw : Bytes) (web : Text) : Prog Op Reply Bytes := do
  let context := request.contextSha256
  privatePath (.folder context)
  privatePath (.file context .request)
  let stored ← askBytes (.read context .request)
  need (stored = raw)
  privatePath (.file context .attempt)
  let attempted ← ask (.exists context .attempt)
  need (attempted = true)
  let sealed ← h.readArtifact web request
  let delivered ← ask (.exists context .sealed)
  if delivered then
    privatePath (.file context .sealed)
    let before ← askBytes (.read context .sealed)
    need (before = sealed)
  return sealed

/-- Makes the directory of all contexts; another call that makes it in between is no failure. -/
def makeStore : Prog Op Reply Unit := do
  let found ← ask .storeExists
  if found then return ()
  else
    let _ ← ask .makeStore
    return ()

def Host.operate (h : Host) (operation : Text) (request : Request) (raw : Bytes) (web : Text) :
    Prog Op Reply Bytes :=
  if operation = text "create" then h.create request raw web else h.readback request raw web

/-- `run`. -/
def Host.run (h : Host) (call : Call) : Prog Op Reply Unit := do
  need (call.euid = 0)
  let (request, raw) ← ofOption (h.requestFromEnvironment call.request)
  need (call.operation = text "create" ∨ call.operation = text "readback")
  done (.attestMetadata request.binding)
  let web ← askText (.attestRuntime request)
  makeStore
  privatePath .store
  let sealed ← h.operate call.operation request raw web
  let printed ← ofOption (decodeAscii sealed)
  done (.print request.contextSha256 (marker ++ printed))

/-- What a started command does to its artifact. -/
inductive Progress where
  /-- `reserve_output`: the file is made. -/
  | reserve (context : Text) (json : Bytes)
  | write (context : Text) (size : ℕ)

/-- The text of one JSON object: no proper prefix can be read. -/
def Host.isWhole (h : Host) (json : Bytes) : Bool :=
  json.head? = some 123 && json.getLast? = some 125 &&
    json.inits.all fun part => part = json || (h.loads (.bytes part)).isNone

/-- The command may go on after its caller gave up. -/
def Host.progress (h : Host) (p : Progress) (s : Disk) : Option Disk :=
  match p with
  | .reserve context json =>
    if (s.log.any fun e => e.event = .started context) ∧ (s.artifacts context).isNone ∧ h.isWhole json then
      some { s with artifacts := fun c => if c = context then some ⟨json, 0⟩ else s.artifacts c }
    else none
  | .write context size =>
    match s.artifacts context with
    | some artifact =>
      if artifact.size ≤ size then
        some { s with artifacts := fun c => if c = context then some { artifact with size } else s.artifacts c }
      else none
    | none => none

/-- The calls of the program and the commands they start. -/
def Host.system (h : Host) : System Op Reply Call Progress Disk := ⟨h.run, effect, h.progress⟩

end Setup
