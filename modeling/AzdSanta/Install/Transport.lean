import AzdSanta.Common.Processes
import AzdSanta.Python.Values
import AzdSanta.Setup.Host

/-! `run` of the private installer's transport: any number of calls of it on one host, whose disk is the
log of what was done to it. A check that fails, an error and a time limit all end a call where it stands. -/
namespace Install
open Python Processes

abbrev Members := List (Text × Json)

/-- What the transport computes with. -/
structure Host where
  /-- The containers that `json` can open. -/
  room : ℕ
  /-- `repr(float(literal))`. -/
  float : Text → Text
  /-- The hex digest of SHA-256. -/
  sha : Bytes → Text
  /-- What `GzipFile` reads, up to one byte more than `run` takes. -/
  gunzip : Bytes → Option Bytes

def Host.loads (h : Host) (raw : Bytes) : Option Json := ((Reader.standard h.room h.float).loadsBytes raw).toOption

/-- The options of `json.dumps(context, sort_keys=True)`. -/
def Host.writer (h : Host) : Writer where
  depth := h.room
  ascii := true
  sorted := true
  nan := true
  comma := text ", "
  colon := text ": "

/-- How `run` is called: the user, and its argument. -/
structure Call where
  euid : ℕ
  value : Members

def Call.item (k : Call) (key : String) : Option Json := (Json.obj k.value).item key

def Call.string (k : Call) (key : String) : Option Text :=
  match k.item key with
  | some (.str s) => some s
  | _ => none

inductive Folder where
  | root
  | uploads
  | source (bundle : Text)
  | archive (bundle archive : Text)
  | installers
  | selected (bundle : Text)
  deriving DecidableEq

inductive File where
  | active
  | chunk (bundle archive : Text) (index : ℕ)
  | bundle (bundle : Text)
  | installed (bundle name : Text)
  | context (bundle : Text)
  deriving DecidableEq

inductive Op where
  /-- `os.geteuid`, the first thing a call does. -/
  | enter
  | makeFolder (folder : Folder)
  | folderExists (folder : Folder)
  | secure (what : Folder ⊕ File)
  | exists (file : File)
  | openNew (file : File)
  | write (file : File) (raw : Bytes)
  | sync (file : File)
  | syncFolder (file : File)
  | read (file : File)
  /-- A path outside of the root that is asked for. -/
  | present (path : String)
  /-- `docker ps` and `docker volume ls`. -/
  | docker (what : String)
  | systemdRun (bundle digest : Text)
  | status (bundle : Text)
  /-- The line of the result. -/
  | answer

inductive Reply where
  | done
  | yes (b : Bool)
  | count (n : ℕ)
  | bytes (b : Bytes)
  | text (t : Text)

inductive Event where
  /-- A call begins, with this in `ACTIVE`. -/
  | entered (active : Option Bytes)
  | made (folder : Folder)
  /-- The file has this content from now on. -/
  | stored (file : File) (content : Bytes)
  /-- `fsync` of the file, with this content, and of the folder it is in. -/
  | synced (file : File) (content : Bytes)
  | anchored (file : File)
  /-- The file was read and had this content. -/
  | found (file : File) (content : Bytes)
  | launched (bundle digest : Text)
  | answered
  deriving DecidableEq

structure Entry where
  process : ℕ
  call : Call
  event : Event

/-- What was done so far, the last entry in front. -/
abbrev Log := List Entry

/-- The content that a file has. -/
def content (f : File) : Log → Option Bytes
  | [] => none
  | e :: log =>
    match e.event with
    | .stored f' c => if f' = f then some c else content f log
    | _ => content f log

def hasFolder (log : Log) (folder : Folder) : Bool := log.any fun e => e.event = .made folder

/-- What a call into the system does: it is not possible with this reply, or changes nothing, or is one
more entry of the log. What is asked about the rest of the host is answered with anything. -/
def effect (k : Call) (op : Op) (r : Reply) (log : Log) : Option (Option Event) :=
  match op, r with
  | .enter, .count uid => if uid = k.euid then some (some (.entered (content .active log))) else none
  | .makeFolder folder, .yes b =>
    if b = !hasFolder log folder then some (if b then some (.made folder) else none) else none
  | .folderExists folder, .yes b => if b = hasFolder log folder then some none else none
  | .secure _, .yes _ => some none
  | .exists file, .yes b => if b = (content file log).isSome then some none else none
  | .openNew file, .yes b =>
    if b = (content file log).isNone then some (if b then some (.stored file []) else none) else none
  | .write file raw, .count size =>
    match content file log with
    | some c => if 0 < size ∧ size ≤ raw.length then some (some (.stored file (c ++ raw.take size))) else none
    | none => none
  | .sync file, .done => (content file log).map fun c => some (.synced file c)
  | .syncFolder file, .done => some (some (.anchored file))
  | .read file, .bytes c => if content file log = some c then some (some (.found file c)) else none
  | .present _, .yes _ => some none
  | .docker _, .text _ => some none
  | .systemdRun bundle digest, .yes _ => some (some (.launched bundle digest))
  | .status _, .done => some none
  | .answer, .done => some (some .answered)
  | _, _ => none

/-- The log behind a call. -/
def Entry.after (n : ℕ) (k : Call) (log : Log) : Option Event → Log
  | none => log
  | some e => ⟨n, k, e⟩ :: log

section Calls

def done (op : Op) : Prog Op Reply Unit := invoke op fun
  | .done => some ()
  | _ => none

def ask (op : Op) : Prog Op Reply Bool := invoke op fun
  | .yes b => some b
  | _ => none

def askBytes (op : Op) : Prog Op Reply Bytes := invoke op fun
  | .bytes b => some b
  | _ => none

def askText (op : Op) : Prog Op Reply Text := invoke op fun
  | .text t => some t
  | _ => none

def askCount (op : Op) : Prog Op Reply ℕ := invoke op fun
  | .count n => some n
  | _ => none

/-- `secure`. -/
def secure (what : Folder ⊕ File) : Prog Op Reply Unit := do
  let safe ← ask (.secure what)
  need (safe = true)

/-- `folder.mkdir(mode=0o700, exist_ok=True)` and `secure(folder)`. -/
def haveFolder (folder : Folder) : Prog Op Reply Unit := do
  let _ ← ask (.makeFolder folder)
  secure (.inl folder)

/-- `exclusive`. -/
def exclusive (file : File) (raw : Bytes) : Prog Op Reply Unit := do
  let opened ← ask (.openNew file)
  need (opened = true)
  writeAll (fun rest => askCount (.write file rest)) raw.length raw
  done (.sync file)
  done (.syncFolder file)

/-- A `command` that has to print nothing. -/
def silent (what : String) : Prog Op Reply Unit := do
  let output ← askText (.docker what)
  need (Setup.strip output = [])

end Calls

section Checks

def keys : List Text :=
  [text "mode", text "bundle_sha256", text "archive_sha256", text "index", text "count", text "data", text "target"]

/-- `FILES`. -/
def files : List Text :=
  [text "private_install.py", text "private_install_transport.py", text "bootstrap-host.sh", text "prepare_source.py",
    text "prepare_core_build.py", text "prepare_operator_mfa.py", text "operator_mfa.py",
    text "prepare_operator_recovery.py", text "operator_recovery.py", text "sealed_setup.py",
    text "prepare_request_limits.py", text "santa_request_limits.py", text "prepare_database_roles.py",
    text "database_roles.py", text "prepare_zentral_eval.py", text "stage_runtime.py", text "runtime_service.py",
    text "santa_admission.py", text "test_live_zentral.py", text "zentral-source.lock.json",
    text "dependency-images.lock.json"]

/-- `re.fullmatch('[A-Za-z0-9+/=]+', s)`, up to the length. -/
def isBase64Text (s : Text) : Bool :=
  s.all fun c => isDigit c || (65 ≤ c && c ≤ 90) || (97 ≤ c && c ≤ 122) || c = 43 || c = 47 || c = 61

/-- `type(value['count']) is int`. -/
def Call.integer (k : Call) (key : String) : Option ℤ :=
  match k.item key with
  | some (.int n) => some n
  | _ => none

/-- The checks of an uploaded chunk. -/
def Call.chunk (k : Call) : Option (ℕ × Text) := do
  let index ← k.integer "index"
  let count ← k.integer "count"
  let data ← k.string "data"
  guard (0 ≤ index ∧ index < count ∧ count ≤ 64 ∧ 0 < data.length ∧ data.length ≤ 24576 ∧ isBase64Text data)
  return (index.toNat, data)

/-- The bundle of the chunks. -/
def Host.unpack (h : Host) (joined archive bundle : Text) : Option Bytes := do
  let compressed ← b64decode false joined
  guard (compressed.length ≤ 1048576 ∧ h.sha compressed = archive)
  let raw ← h.gunzip compressed
  guard (raw.length ≤ 2097152 ∧ h.sha raw = bundle)
  return raw

/-- `package['files']` of a bundle that names what it has to. -/
def Host.packed (h : Host) (raw : Bytes) : Option Json := do
  let .obj package ← h.loads raw | none
  guard (Setup.hasFields package [text "scope", text "files"])
  guard ((← (Json.obj package).item "scope").same 0 (.str (text "private-azd-source-v1")))
  let packed ← (Json.obj package).item "files"
  let names ← (← packed.elements).mapM fun
    | .str name => some name
    | _ => none
  guard ((names.all fun name => name ∈ files) ∧ files.all fun name => name ∈ names)
  return packed

/-- The bytes of a file of the bundle. -/
def Host.body (h : Host) (metadata : Json) : Option Bytes := do
  let .obj fields := metadata | none
  guard (Setup.hasFields fields [text "sha256", text "base64"])
  let .str encoded ← metadata.item "base64" | none
  let body ← b64decode false encoded
  guard (body.length ≤ 262144 ∧ (← metadata.item "sha256").same 0 (.str (h.sha body)))
  return body

/-- The bytes of the context. -/
def Host.context (h : Host) (bundle : Text) (target : Json) : Option Bytes :=
  (h.writer.dumpsBytes (.obj [(text "scope", .str (text "private-azd-install-v1")), (text "bundle_sha256", .str bundle),
    (text "target", target)])).toOption

end Checks

section Run

/-- What is left of a call where `ACTIVE` exists; the result is whether it has returned. -/
def Host.reserved (h : Host) (k : Call) (bundle mode : Text) : Prog Op Reply Bool := do
  secure (.inr .active)
  let raw ← askBytes (.read .active)
  let old ← ofOption (h.loads raw)
  let named ← ofOption (old.item "bundle_sha256")
  need (named.same 0 (.str bundle) = true)
  if mode = text "submit" then do
    let target ← ofOption (old.item "target")
    let wanted ← ofOption (k.item "target")
    need (target.same h.room wanted = true)
    done (.status bundle)
    return true
  else if mode = text "observe" then do
    done (.status bundle)
    return true
  else return false

/-- The same where it does not exist. -/
def fresh (mode : Text) : Prog Op Reply Bool := do
  let installed ← ask (.present "/etc/systemd/system/azd-santa-runtime.service")
  need (installed = false)
  return decide (mode = text "observe")

def Host.admit (h : Host) (k : Call) (bundle mode : Text) : Prog Op Reply Bool := do
  let active ← ask (.exists .active)
  if active then h.reserved k bundle mode else fresh mode

/-- The branch of `chunk`. -/
def upload (k : Call) (bundle archive : Text) : Prog Op Reply Unit := do
  let (index, data) ← ofOption k.chunk
  let path := File.chunk bundle archive index
  let there ← ask (.exists path)
  if there then do
    secure (.inr path)
    let raw ← askBytes (.read path)
    need (decodeUtf8 false raw = some data)
  else do
    let raw ← ofOption (encodeUtf8 data)
    exclusive path raw

/-- The texts of the chunks from `index` on. -/
def readChunks (bundle archive : Text) : ℕ → ℕ → Prog Op Reply Text
  | _, 0 => .ret []
  | index, n + 1 => do
    let raw ← askBytes (.read (.chunk bundle archive index))
    let first ← ofOption (decodeUtf8 false raw)
    let rest ← readChunks bundle archive (index + 1) n
    return first ++ rest

/-- The directory of the bundle, which is kept in it. -/
def select (bundle : Text) (raw : Bytes) : Prog Op Reply Unit := do
  haveFolder .installers
  let there ← ask (.folderExists (.selected bundle))
  if there then return ()
  else do
    let made ← ask (.makeFolder (.selected bundle))
    need (made = true)
    exclusive (.bundle bundle) raw

/-- A file of the bundle is found, or written. -/
def Host.place (h : Host) (bundle name : Text) (metadata : Json) : Prog Op Reply Unit := do
  let body ← ofOption (h.body metadata)
  let path := File.installed bundle name
  let there ← ask (.exists path)
  if there then do
    secure (.inr path)
    let raw ← askBytes (.read path)
    need (raw = body)
  else exclusive path body

def Host.placeAll (h : Host) (bundle : Text) : Members → Prog Op Reply Unit
  | [] => .ret ()
  | (name, metadata) :: rest => do
    h.place bundle name metadata
    h.placeAll bundle rest

/-- No existing runtime or data is used. -/
def freshHost : Prog Op Reply Unit := do
  let data ← ask (.present "/var/lib/docker/volumes")
  if data then do
    silent "ps"
    silent "volume ls"
  else return ()

/-- The branch of `submit`. -/
def Host.submit (h : Host) (k : Call) (bundle archive : Text) : Prog Op Reply Unit := do
  let count ← ofOption (k.integer "count")
  need (1 ≤ count ∧ count ≤ 64)
  let joined ← readChunks bundle archive 0 count.toNat
  let raw ← ofOption (h.unpack joined archive bundle)
  let packed ← ofOption (h.packed raw)
  select bundle raw
  secure (.inl (.selected bundle))
  let kept ← askBytes (.read (.bundle bundle))
  need (kept = raw)
  let members ← ofOption packed.items
  h.placeAll bundle members
  freshHost
  let target ← ofOption (k.item "target")
  let context ← ofOption (h.context bundle target)
  exclusive (.context bundle) context
  exclusive .active context
  let started ← ask (.systemdRun bundle (h.sha context))
  need (started = true)
  done (.status bundle)

/-- What a call does that is neither refused nor answered by what is there. -/
def Host.proceed (h : Host) (k : Call) (bundle mode : Text) : Prog Op Reply Unit := do
  haveFolder .uploads
  haveFolder (.source bundle)
  let archive ← ofOption (k.string "archive_sha256")
  need (Setup.isHex 64 archive = true)
  haveFolder (.archive bundle archive)
  if mode = text "chunk" then upload k bundle archive else h.submit k bundle archive

/-- `run`. -/
def Host.run (h : Host) (k : Call) : Prog Op Reply Unit := do
  let uid ← askCount .enter
  need (uid = 0 ∧ k.value.all (fun m => m.1 ∈ keys) = true)
  let bundle ← ofOption (k.string "bundle_sha256")
  need (Setup.isHex 64 bundle = true)
  haveFolder .root
  let mode ← ofOption (k.string "mode")
  need (mode ∈ [text "chunk", text "submit", text "observe"])
  let returned ← h.admit k bundle mode
  if returned then done .answer
  else do
    h.proceed k bundle mode
    done .answer

end Run

/-- The calls of the program on one host. -/
def Host.system (h : Host) : System Op Reply Call Empty Log where
  program := h.run
  effect n k op r log := (effect k op r log).map (Entry.after n k log)
  disturb := fun e _ => e.elim

end Install
