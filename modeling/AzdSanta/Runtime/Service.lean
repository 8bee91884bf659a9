import AzdSanta.Common.Trails
import AzdSanta.Python.Values
import AzdSanta.Setup.Host

/-! The supervisor of the initialized containers: `Runtime.supervise` and what it calls, over
whatever Docker, the disk and the signals do. -/
namespace Runtime
open Python Processes

abbrev Members := List (Text × Json)

/-- What the supervisor was made for, and the interpreter under it. -/
structure Binding where
  project : Text
  digest : Text
  /-- The directory of the compose file. -/
  directory : Text
  services : Members
  volumes : List Text
  policyHashes : Members
  room : ℕ
  float : Text → Text
  /-- `str(v)`. -/
  str : Json → Text

def Binding.reader (b : Binding) : Reader := .standard b.room b.float

def Binding.loads (b : Binding) (input : Text) : Option Json := (b.reader.loads input).toOption

inductive Error where
  /-- `Cancelled`. -/
  | cancelled
  | failed
  deriving DecidableEq

/-- What a helper is run for. -/
inductive Task where
  | schema
  | securityStore
  | admission
  | search
  deriving DecidableEq

inductive Command where
  | ps (project : Text)
  | inspect (ids : List Text)
  | composeConfig (json : Bool)
  | imageInspect (ref : Text)
  | info
  | volumeInspect (name : Text)
  | start (ids : List Text)
  | stop (seconds : ℕ) (ids : List Text)
  | databaseReady (user database : Json)
  | listQueues
  | composeRun (name : Text) (task : Task)
  | psNames
  | psAll

/-- The steps of `start` before the listener. -/
inductive Stage where
  | admissionClosed
  | backingData
  | dependencies
  | task (t : Task)
  | workers
  | consumers
  deriving DecidableEq

/-- A point of the program that the trail shows; nothing happens there. -/
inductive Mark where
  /-- `load_manifest` has returned. -/
  | manifest
  /-- `inspect` returns. -/
  | inspected (selected : List (Text × Text))
  /-- `container_generation` returns. -/
  | accepted (anchor : List (Text × Text))
  /-- A step of `start` is behind it. -/
  | passed (s : Stage)
  /-- What the listing of `stop` shows, and that it raised. -/
  | listed (current : List Text)
  | unlisted
  /-- `supervise` is left. -/
  | left

inductive Op where
  /-- `call` is entered; the reply is whether `stopping` was set. -/
  | enter (label : String)
  /-- `ensure_running`, with the same reply. -/
  | poll
  | run (c : Command)
  /-- `private_write` of evidence. -/
  | record
  | loadManifest
  /-- `container-generation.json`, checked and read. -/
  | readGeneration
  /-- A check of the disk, a lock or a socket. -/
  | check (what : String)
  | uuid
  /-- How often a loop is gone round. -/
  | rounds
  | http
  | mark (m : Mark)

/-- How a command ends. -/
inductive Outcome where
  | timeout
  | error
  | result (code : ℤ) (stdout : Text)

inductive Reply where
  | done
  | yes (b : Bool)
  | outcome (o : Outcome)
  | bytes (raw : Bytes)
  | text (t : Text)
  | count (n : ℕ)

/-- The fields of a `Runtime` that change. -/
structure State where
  ids : List Text
  cleanupIds : List Text
  images : Members
  rendered : Option Json
  helpers : List Text

def State.fresh : State := ⟨[], [], [], none, []⟩

abbrev RT := Routine Op Reply Error State

section Calls

def done (op : Op) : RT Unit := Routine.call op fun
  | .done => some ()
  | _ => none

def ask (op : Op) : RT Bool := Routine.call op fun
  | .yes b => some b
  | _ => none

def need (c : Prop) [Decidable c] : RT Unit := Routine.need .failed c

def ofOption {α : Type} (x : Option α) : RT α := Routine.ofOption .failed x

def subprocess (c : Command) : RT Outcome := Routine.call (.run c) fun
  | .outcome o => some o
  | _ => none

def askText (op : Op) : RT Text := Routine.call op fun
  | .text t => some t
  | _ => none

def askBytes (op : Op) : RT Bytes := Routine.call op fun
  | .bytes raw => some raw
  | _ => none

def askCount (op : Op) : RT ℕ := Routine.call op fun
  | .count n => some n
  | _ => none

/-- Something outside that raises where it does not succeed. -/
def must (op : Op) : RT Unit := do
  let good ← ask op
  need (good = true)

end Calls

/-- `ensure_running`. -/
def ensureRunning : RT Unit := do
  let stopping ← ask .poll
  if stopping then throw .cancelled else pure ()

structure Options where
  allowedFailure : Bool := false
  record : Bool := true
  allowStopping : Bool := false

/-- The evidence of a command, where `call` keeps it. -/
def Options.evidence (o : Options) (code : ℤ) : RT Unit :=
  if o.record ∨ code ≠ 0 then must .record else pure ()

def Options.goOn (o : Options) : RT Unit := if o.allowStopping then pure () else ensureRunning

/-- What `call` does with the outcome of its command. -/
def settle (o : Options) : Outcome → RT (ℤ × Text)
  | .timeout => do
    must .record
    throw .failed
  | .error => throw .failed
  | .result code stdout => do
    o.evidence code
    need (code = 0 ∨ o.allowedFailure = true)
    o.goOn
    return (code, stdout)

/-- `call`. -/
def call (label : String) (c : Command) (o : Options := {}) : RT (ℤ × Text) := do
  let stopping ← ask (.enter label)
  if stopping = true ∧ o.allowStopping = false then throw .cancelled
  else do
    let outcome ← subprocess c
    settle o outcome

/-- `load_manifest`, of the same manifest again. -/
def loadManifest : RT Unit := do
  must .loadManifest
  done (.mark .manifest)

def apps : List Text := [text "web", text "workers", text "celery"]

def dependencies : List Text := [text "db", text "redis", text "rabbitmq", text "elastic"]

def revision : Text := text "88e67b3ce49033aab028029937a6e14f7c489073"

section Rows

/-- The service that a container says it belongs to. -/
def Binding.serviceName (b : Binding) (row : Json) (selected : List (Text × Text)) : Option Text := do
  let labels ← (← row.item "Config").getD "Labels" (.obj [])
  let .str name ← labels.get "com.docker.compose.service" | none
  let .str project ← labels.get "com.docker.compose.project" | none
  guard (project = b.project ∧ (b.services.lookup name).isSome ∧ name ∉ selected.map Prod.fst)
  return name

/-- The environment that the image and the rendered file give a service. -/
def Binding.environment (b : Binding) (name : Text) (image rendered : Json) : Option Members := do
  let entries ← ((← (← image.item "Config").getD "Env" (.arr [])).elements)
  let base ← entries.mapM fun entry => do
    let .str s := entry | none
    let (key, value) ← splitEquals s
    return (key, Json.str value)
  let .obj services ← rendered.item "services" | none
  let added ← (← (← services.lookup name).getD "environment" (.obj [])).items
  return dictPairs (base ++ added.map fun (key, value) => (key, .str (b.str value)))

/-- The mounts that a service declares. -/
def Binding.expectedMounts (b : Binding) (service : Json) : Option (List (List Json)) := do
  let volumes ← (← service.getD "volumes" (.arr [])).elements
  volumes.mapM fun volume => do
    let .str s := volume | none
    let source :: target :: _ := s.splitOn 58 | none
    return if source = text "./conf" then
      [.str (text "bind"), .str (b.directory ++ text "/conf"), .str target, .bool false]
    else [.str (text "volume"), .str (b.project ++ text "_" ++ source), .str target, .bool true]

def actualMounts (row : Json) : Option (List (List Json)) := do
  let mounts ← (← row.item "Mounts").elements
  mounts.mapM fun m => do
    let type ← m.item "Type"
    let source ← if type.same 0 (.str (text "bind")) then m.item "Source" else m.get "Name"
    let mount := [type, source, ← m.item "Destination", ← m.item "RW"]
    guard (mount.all Json.hashable)
    return mount

/-- Equality of two sets of tuples. -/
def sameTuples (xs ys : List (List Json)) : Bool :=
  let member (x : List Json) (ys : List (List Json)) :=
    ys.any fun y => x.length = y.length && (x.zip y).all fun p => p.1.same 0 p.2
  (xs.all fun x => member x ys) && ys.all fun y => member y xs

def loopback : Json := .obj [(text "8000/tcp", .arr [.obj [(text "HostIp", .str (text "127.0.0.1")),
  (text "HostPort", .str (text "8000"))]])]

/-- The network and the ports of a container. -/
def Binding.checkPorts (b : Binding) (name : Text) (row image : Json) : Option Unit := do
  let host ← row.item "HostConfig"
  let network ← row.item "NetworkSettings"
  let ports := if name = text "web" then loopback else .obj []
  let networks ← (← network.item "Networks").elements
  guard (((← host.get "PortBindings").or (.obj [])).same b.room ports ∧
    (← host.get "NetworkMode").same 0 (.str (b.project ++ text "_default")))
  guard (sameTuples (networks.map ([·])) [[.str (b.project ++ text "_default")]])
  let actual ← ((← network.get "Ports").or (.obj [])).items
  guard (actual.all fun p => !p.2.same 1 (.arr []))
  let published := actual.filter fun p => !p.2.same 0 .null
  let exposed ← ((← (← image.item "Config").get "ExposedPorts").or (.obj [])).elements
  let unbound := exposed ++ (if name = text "web" then [.str (text "8000/tcp")] else [])
  guard (actual.all fun p => !p.2.same 0 .null || unbound.any fun port => (Json.str p.1).same 0 port)
  let running := (← (← row.item "State").item "Running").truthy
  guard (if running then (Json.obj published).same b.room ports
    else published = [] ∨ (Json.obj published).same b.room ports)

/-- The checks of a container against its image and the rendered file. -/
def Binding.checkRow (b : Binding) (name : Text) (running : Bool) (row image rendered : Json) : Option Unit := do
  let service ← b.services.lookup name
  let config ← row.item "Config"
  let host ← row.item "HostConfig"
  let imageConfig ← image.item "Config"
  guard ((← row.item "Image").same 0 (← image.item "Id") ∧
    (← (← host.item "RestartPolicy").item "Name").same 0 (.str (text "no")) ∧
    (!running ∨ (← (← row.item "State").item "Running").truthy))
  guard (name ∉ apps ∨ (← (← imageConfig.getD "Labels" (.obj [])).get "org.opencontainers.image.revision").same 0
    (.str revision))
  guard ((← config.get "Cmd").same b.room (← service.getD "command" (← imageConfig.get "Cmd")) ∧
    (← config.get "Entrypoint").same b.room (← imageConfig.get "Entrypoint") ∧
    ((← config.get "User").or (.str [])).same b.room ((← imageConfig.get "User").or (.str [])))
  guard (!(← host.get "Privileged").truthy ∧ !(← host.get "CapAdd").truthy ∧ !(← host.get "PidMode").truthy ∧
    !(← host.get "Devices").truthy ∧ !(← host.get "PublishAllPorts").truthy ∧
    (← host.get "SecurityOpt").same b.room (.arr [.str (text "no-new-privileges:true")]))
  let hostname ← service.getD "hostname" .null
  guard ((service.item "hostname").isNone ∨ (← config.get "Hostname").same b.room hostname)
  let expected ← b.environment name image rendered
  let actual ← (← config.getD "Env" (.arr [])).elements
  let pairs ← actual.mapM fun entry => do
    let .str s := entry | none
    let (key, value) ← splitEquals s
    return (key, Json.str value)
  guard ((pairs.map Prod.fst).Nodup ∧ (Json.obj pairs).same b.room (.obj expected))
  let declared ← b.expectedMounts service
  let mounts ← actualMounts row
  guard (sameTuples mounts declared ∧ mounts.length = declared.length)
  b.checkPorts name row image

end Rows

/-- The image that a service declares. -/
def Binding.imageRef (b : Binding) (name : Text) : Option Text := do
  let .str ref ← (← b.services.lookup name).item "image" | none
  return ref

/-- The image of a reference, inspected once. -/
def Binding.image (b : Binding) (ref : Text) : RT Json := do
  match (← get).images.lookup ref with
  | some image => return image
  | none => do
    let (_, stdout) ← call "image-inspection" (.imageInspect ref)
    let .arr (image :: _) ← ofOption (b.loads stdout) | throw .failed
    modify fun t => { t with images := (ref, image) :: t.images }
    return image

/-- One round of the loop of `inspect`. -/
def Binding.select (b : Binding) (running : Bool) (rendered : Json) (selected : List (Text × Text)) (row : Json) :
    RT (List (Text × Text)) := do
  let name ← ofOption (b.serviceName row selected)
  let ref ← ofOption (b.imageRef name)
  let image ← b.image ref
  ofOption (b.checkRow name running row image rendered)
  let .str id ← ofOption (row.item "Id") | throw .failed
  return selected ++ [(name, id)]

/-- The containers to inspect: those selected before, else those of the project. -/
def Binding.candidates (b : Binding) (record : Bool) : RT (List Text) := do
  let known := (← get).ids
  if known ≠ [] then return known
  else do
    let (_, stdout) ← call "container-selection" (.ps b.project) { record }
    return splitWords stdout

/-- `docker compose config`, rendered once. -/
def Binding.rendering (b : Binding) : RT Json := do
  match (← get).rendered with
  | some rendered => return rendered
  | none => do
    let (_, stdout) ← call "rendered-compose" (.composeConfig true)
    let rendered ← ofOption (b.loads stdout)
    modify fun t => { t with rendered := some rendered }
    return rendered

/-- The ids of the rows. -/
def rowIds (rows : List Json) : Option (List Text) := rows.mapM fun row => do
  let .str id ← row.item "Id" | none
  return id

/-- `inspect`. -/
def Binding.inspect (b : Binding) (running : Bool) (record : Bool := true) : RT (List (Text × Text)) := do
  let ids ← b.candidates record
  need (ids.length = 7 ∧ ids.all (Setup.isHex 64) = true)
  let known := (← get).ids
  need (known = [] ∨ (ids ⊆ known ∧ known ⊆ ids))
  let (_, stdout) ← call "container-inspection" (.inspect ids) { record }
  let .arr rows ← ofOption (b.loads stdout) | throw .failed
  let found ← ofOption (rowIds rows)
  need (rows.length = 7 ∧ found ⊆ ids ∧ ids ⊆ found)
  let rendered ← b.rendering
  let selected ← rows.foldlM (b.select running rendered) []
  modify fun t => { t with ids := selected.map Prod.snd }
  done (.mark (.inspected selected))
  return selected

def generationKeys : List Text :=
  [text "scope", text "manifest_sha256", text "project", text "image_id", text "generation", text "container_ids"]

/-- The `container_ids` of a generation that is accepted. -/
def Binding.generation (b : Binding) (value : Json) (selected : List (Text × Text)) : Option (List (Text × Text)) := do
  let .obj members := value | none
  guard (Setup.hasFields members generationKeys)
  guard ((← value.item "scope").same 0 (.str (text "private-runtime-container-generation-v1")) ∧
    (← value.item "manifest_sha256").same 0 (.str b.digest) ∧ (← value.item "project").same 0 (.str b.project) ∧
    (← value.item "image_id").same 0 (.str (← b.imageRef (text "web"))))
  let .str generation ← value.item "generation" | none
  guard (Setup.isHex 32 generation)
  let .obj entries ← value.item "container_ids" | none
  guard (Setup.hasFields entries (apps ++ dependencies))
  let anchor ← entries.mapM fun m => do
    let .str id := m.2 | none
    guard (Setup.isHex 64 id)
    return (m.1, id)
  guard ((anchor.map Prod.snd).dedup.length = 7)
  -- `value['container_ids'] != selected` compares two dictionaries.
  guard (anchor.length = selected.length ∧ anchor.all fun m => selected.lookup m.1 = some m.2)
  return anchor

/-- `container_generation`. -/
def Binding.containerGeneration (b : Binding) (selected : List (Text × Text)) : RT (List (Text × Text)) := do
  let raw ← askBytes .readGeneration
  let value ← ofOption ((b.reader.loadsBytes raw).toOption)
  let anchor ← ofOption (b.generation value selected)
  done (.mark (.accepted anchor))
  return anchor

/-- `selected[name]` for each of the names. -/
def pick (selected : List (Text × Text)) (names : List Text) : Option (List Text) :=
  names.mapM fun name => selected.lookup name

/-- `start_ids`. -/
def Binding.startIds (b : Binding) (label : String) (names : List Text) : RT Unit := do
  ensureRunning
  loadManifest
  let selected ← b.inspect false
  let ids ← ofOption (pick selected names)
  let _ ← call label (.start ids)
  return ()

/-- A helper that may be stopped. -/
def Binding.ownsHelper (b : Binding) (name : Text) (row : Json) : Option Text := do
  let labels ← (← row.item "Config").getD "Labels" (.obj [])
  guard ((← row.item "Name").same 0 (.str (text "/" ++ name)) ∧
    (← labels.get "com.docker.compose.project").same 0 (.str b.project) ∧
    (← labels.get "com.docker.compose.service").same 0 (.str (text "web")) ∧
    (← row.item "Image").same 0 (.str (← b.imageRef (text "web"))))
  let .str id ← row.item "Id" | none
  return id

/-- One round of the loop of `stop_helpers`. -/
def Binding.stopHelper (b : Binding) (name : Text) : RT Unit := do
  let (code, stdout) ← call "helper-inspection" (.inspect [name]) { allowedFailure := true, allowStopping := true }
  if code = 0 then do
    let .arr [row] ← ofOption (b.loads stdout) | throw .failed
    let id ← ofOption (b.ownsHelper name row)
    let _ ← call "helper-stop" (.stop 5 [id]) { allowStopping := true }
    modify fun t => { t with helpers := t.helpers.erase name }
  else do
    let (_, stdout) ← call "helper-inventory" .psNames { allowStopping := true }
    need (name ∉ splitlines stdout)
    modify fun t => { t with helpers := t.helpers.erase name }

/-- `stop_helpers`. -/
def Binding.stopHelpers (b : Binding) : RT Unit := do
  forM (← get).helpers b.stopHelper

/-- `oneoff`. -/
def Binding.oneoff (b : Binding) (label : String) (task : Task) : RT Unit := do
  ensureRunning
  loadManifest
  let _ ← b.inspect false
  let hex ← askText .uuid
  let name := text "santa-runtime-check-" ++ hex
  modify fun t => { t with helpers := name :: t.helpers }
  let run : RT Unit := do
    let _ ← call label (.composeRun name task)
    return ()
  run.finally b.stopHelpers

/-- The loop of `wait`: the deadline comes after so many rounds. -/
def waitRounds (ready : RT Bool) : ℕ → RT Unit
  | 0 => throw .failed
  | n + 1 => do
    ensureRunning
    let ok ← ready
    ensureRunning
    if ok then return () else waitRounds ready n

/-- `wait`. -/
def wait (ready : RT Bool) : RT Unit := do
  let n ← askCount .rounds
  waitRounds ready (n + 1)

/-- `backing_data`: the volumes of the project and what is in them. -/
def Binding.backingData (b : Binding) : RT Unit := do
  let (_, stdout) ← call "docker-root" .info
  let root := Setup.strip stdout
  must (.check "docker-root")
  forM b.volumes fun name => do
    let full := b.project ++ text "_" ++ name
    let (_, stdout) ← call "volume-inspection" (.volumeInspect full)
    let .arr (volume :: _) ← ofOption (b.loads stdout) | throw .failed
    let owned : Option Bool := do
      let labels ← volume.getD "Labels" (.obj [])
      return (← volume.get "Name").same 0 (.str full) && (← volume.get "Driver").same 0 (.str (text "local")) &&
        !(← volume.get "Options").truthy && (← labels.get "com.docker.compose.project").same 0 (.str b.project) &&
        (← volume.get "Mountpoint").same 0 (.str (root ++ text "/volumes/" ++ full ++ text "/_data"))
    need (owned = some true)
    must (.check "mountpoint")
  must (.check "sentinels")

/-- The queues all have consumers. -/
def Binding.consumersReady (b : Binding) (stdout : Text) : Option Bool := do
  let rows ← (← b.loads stdout).elements
  [text "store_events_Elasticsearch", text "enrich_events", text "process_events"].allM fun name =>
    rows.anyM fun q => do
      if (← q.item "name").same 0 (.str name) then (← q.item "consumers").positive else some false

/-- `start`. -/
def Binding.start (b : Binding) : RT Unit := do
  ensureRunning
  let selected ← b.inspect false
  let anchor ← b.containerGeneration selected
  modify fun t => { t with cleanupIds := anchor.map Prod.snd }
  let appIds ← ofOption (pick selected apps)
  let _ ← call "close-admission" (.stop 30 appIds)
  done (.mark (.passed .admissionClosed))
  let _ ← call "compose-config" (.composeConfig false)
  b.backingData
  done (.mark (.passed .backingData))
  must (.check "max_map_count")
  b.startIds "dependencies" dependencies
  done (.mark (.passed .dependencies))
  let rendered ← ofOption (← get).rendered
  let database ← ofOption do
    let .obj services ← rendered.item "services" | none
    (← services.lookup (text "db")).item "environment"
  wait do
    let user ← ofOption (database.item "POSTGRES_USER")
    let name ← ofOption (database.item "POSTGRES_DB")
    let (code, _) ← call "database" (.databaseReady user name) { allowedFailure := true }
    return code = 0
  b.oneoff "source-schema-store" .schema
  done (.mark (.passed (.task .schema)))
  b.oneoff "security-store" .securityStore
  done (.mark (.passed (.task .securityStore)))
  b.oneoff "sync-admission" .admission
  done (.mark (.passed (.task .admission)))
  ensureRunning
  b.oneoff "search" .search
  done (.mark (.passed (.task .search)))
  b.startIds "workers" [text "workers", text "celery"]
  done (.mark (.passed .workers))
  wait do
    let (code, stdout) ← call "queues" .listQueues { allowedFailure := true }
    if code ≠ 0 then return false
    else ofOption (b.consumersReady stdout)
  done (.mark (.passed .consumers))
  b.startIds "listener" [text "web"]
  let _ ← b.inspect true
  wait (ask .http)
  ensureRunning

/-- The end of `stop`, with its `finally`. -/
def cleanup : RT Unit := do
  let authorized := (← get).cleanupIds
  if authorized = [] then return ()
  else do
    let listing : RT (ℤ × Text) := call "cleanup-selection" .psAll { allowStopping := true }
    let (_, stdout) ← tryCatch listing fun e => do
      done (.mark .unlisted)
      throw e
    let current := splitWords stdout
    done (.mark (.listed current))
    let selected := authorized.filter (· ∈ current)
    if selected = [] then return ()
    else do
      let _ ← call "stop" (.stop 30 selected) { allowStopping := true }
      return ()

/-- `stop`. -/
def Binding.stop (b : Binding) : RT Unit := b.stopHelpers.finally cleanup

/-- The loop of `supervise`; the bound is how far the run is followed. -/
def Binding.watch (b : Binding) : ℕ → RT Unit
  | 0 => fun _ => .fail
  | n + 1 => do
    let stopping ← ask .poll
    if stopping then return ()
    else do
      loadManifest
      let _ ← b.inspect true false
      b.watch n

/-- The body of `supervise` inside its `try`. -/
def Binding.serve (b : Binding) : RT Unit := do
  b.start
  ensureRunning
  must (.check "notify")
  let n ← askCount .rounds
  b.watch n

/-- The `try` of `supervise` with its handlers. -/
def Binding.guarded (b : Binding) : RT Unit := tryCatch b.serve fun
  | .cancelled => must .record
  | .failed => do
    must .record
    throw .failed

/-- `supervise`. -/
def Binding.supervise (b : Binding) : RT Unit := do
  must (.check "supervisor.lock")
  (b.guarded.finally b.stop).finally (done (.mark .left))

end Runtime
