import AzdSanta.Python.Base64
import AzdSanta.Sync.Snapshot

/-! `Model`: the sessions of two devices, each pinned to one snapshot and paged by cursors. -/
namespace Sync
open Checks Python

inductive Device where
  | a
  | b
  deriving DecidableEq

def Device.name : Device → Text
  | .a => text "device-a"
  | .b => text "device-b"

/-- The stages of a sync; `other` is a name that `do_POST` does not route. -/
inductive Stage where
  | preflight
  | eventupload
  | ruledownload
  | postflight
  | other
  deriving DecidableEq

/-- The bytes behind `secrets.token_hex(16)`. -/
structure Token where
  bytes : Bytes
  size : bytes.length = 16

def Token.hex (token : Token) : Text :=
  token.bytes.flatMap fun b => [hexDigit (b.toNat / 16), hexDigit (b.toNat % 16)]

structure Session where
  id : Text
  snapshot : Fixture
  expires : ℚ
  served : Finset ℕ
  acked : Bool

/-- A `Model`; a device that never acknowledged counts as 0. -/
structure Model where
  snapshot : Fixture
  tokens : List (Text × Device)
  sessions : Device → Option Session
  acknowledged : Device → ℤ
  eventDigests : Device → Finset Text

/-- What a `Model` computes with: the packages of its interpreter and its own key. -/
structure Process where
  codec : Codec
  /-- `float == int`, on the float's `repr`. -/
  floatEquals : Text → ℤ → Bool
  /-- `hmac.digest(self.key, payload, 'sha256')`. -/
  mac : Bytes → Bytes
  mac_size : ∀ payload, (mac payload).length = 32

abbrev Dict := List (Text × Json)

def Dict.get (body : Dict) (key : String) : Option Json := body.lookup (text key)

structure Reply where
  status : ℕ
  body : Dict

/-- A reply with the body `{}`. -/
def Reply.bare (status : ℕ) : Reply := ⟨status, []⟩

/-- A request as `handle` gets it, with what it reads from the clock and the random source. -/
structure Request where
  stage : Stage
  device : Device
  body : Dict
  /-- The clock at the look at the session. -/
  now : ℚ
  /-- The clock at the creation of a session. -/
  stamp : ℚ
  id : Token

def maxEvents : ℕ := 50

def maxEventDigests : ℕ := 256

/-- The model of a new process. -/
def Model.initial (snapshot : Fixture) (tokens : List (Text × Device)) : Model where
  snapshot := snapshot
  tokens := tokens
  sessions _ := none
  acknowledged _ := 0
  eventDigests _ := ∅

def Model.setSession (m : Model) (device : Device) (session : Option Session) : Model :=
  { m with sessions := Function.update m.sessions device session }

/-- `revoke_fixture_device`. -/
def Model.revokeFixtureDevice (m : Model) (device : Device) : Model :=
  { m with tokens := m.tokens.filter fun t => t.2 ≠ device }.setSession device none

/-- `rotate_fixture_device`, which draws `token`. -/
def Model.rotateFixtureDevice (m : Model) (device : Device) (token : Text) : Model :=
  let revoked := m.revokeFixtureDevice device
  { revoked with tokens := revoked.tokens.filter (fun t => t.1 ≠ token) ++ [(token, device)] }

/-- The values a cursor is made of. -/
def cursorValues (device : Device) (session : Session) (offset : ℕ) : Json :=
  .arr [.str device.name, .str session.id, .int session.snapshot.revision, .int offset]

def cursor (p : Process) (device : Device) (session : Session) (offset : ℕ) : Except Failure Text := do
  let payload ← p.codec.canonical (cursorValues device session offset)
  return b64encode true (payload ++ p.mac payload)

/-- `value == n`. -/
def equalsInt (p : Process) (n : ℤ) : Json → Bool
  | .int m => m = n
  | .bool b => (if b then 1 else 0) = n
  | .float repr => p.floatEquals repr n
  | _ => false

/-- The checks of `offset` on the values of an authentic payload. -/
def checkValues (p : Process) (device : Device) (session : Session) : Json → Except Failure ℕ
  | .arr (first :: second :: third :: .int offset :: _) =>
    if first.isOneOf [device.name] ∧ second.isOneOf [session.id] ∧
        equalsInt p session.snapshot.revision third ∧
        1 ≤ offset ∧ offset < session.snapshot.rules.length then pure offset.toNat
    else throw (.valueError "invalid cursor")
  -- `values[3]` of a dict is a KeyError, which is not caught.
  | .obj _ => throw .lookupError
  | _ => throw (.valueError "invalid cursor")

def offset (p : Process) (cursor : Text) (device : Device) (session : Session) : Except Failure ℕ :=
  if cursor.length > 512 then throw (.valueError "")
  else match b64decode true cursor with
    | none => throw (.valueError "invalid cursor")
    | some raw =>
      let payload := raw.take (raw.length - 32)
      if raw.drop (raw.length - 32) ≠ p.mac payload then throw (.valueError "invalid cursor")
      else match p.codec.loads (.bytes payload) with
        | .ok values => checkValues p device session values
        | .error (.valueError _) | .error .typeError => throw (.valueError "invalid cursor")
        | .error failure => throw failure

/-- The session can still be used. -/
def Session.live (session : Session) (now : ℚ) : Bool := now < session.expires

/-- A preflight creates a session when none can be kept. -/
def Model.pins (m : Model) (device : Device) (now : ℚ) : Bool :=
  match m.sessions device with
  | some session => !session.live now || session.acked
  | none => true

def Model.preflight (m : Model) (request : Request) : Model × Except Failure Reply :=
  if m.snapshot.rules = [] ∨ ¬ m.snapshot.approval.truthy then (m, .ok (.bare 503))
  else if m.snapshot.revision < m.acknowledged request.device then (m, .ok (.bare 409))
  else
    let reply : Reply := ⟨200, [(text "clientMode", .str (text "MONITOR")),
      (text "syncType", .str (text "CLEAN")), (text "batchSize", .int maxEvents)]⟩
    if m.pins request.device request.now then
      (m.setSession request.device (some ⟨request.id.hex, m.snapshot, request.stamp + 300, ∅, false⟩),
        .ok reply)
    else (m, .ok reply)

/-- `re.fullmatch('[a-f0-9]{64}', s)`. -/
def isDigest (s : Text) : Bool := s.length = 64 && s.all fun c => (97 ≤ c && c ≤ 102) || isDigit c

/-- The check of one event. -/
def eventShape : Json → Bool
  | .obj event =>
    (match Dict.get event "file_sha256" with
      | some (.str s) => isDigest s
      | _ => false) &&
    match Dict.get event "decision" with
    | some decision => decision.isOneOf [text "BLOCK_BINARY", text "BLOCK_UNKNOWN", text "ALLOW_UNKNOWN"]
    | none => false
  | _ => false

/-- A list of events that passes the checks of an upload. -/
def uploadEvents (body : Dict) : Option (List Json) :=
  match body.get "events" with
  | some (.arr events) =>
    if 1 ≤ events.length ∧ events.length ≤ maxEvents ∧ events.all eventShape then some events else none
  | _ => none

/-- The digests of the canonical events, in their order. -/
def eventDigests (codec : Codec) (events : List Json) : Except Failure (List Text) :=
  events.mapM fun event => codec.sha256 <$> codec.canonical event

def Model.eventupload (p : Process) (m : Model) (request : Request) : Model × Except Failure Reply :=
  match uploadEvents request.body with
  | none => (m, .ok (.bare 400))
  | some events =>
    match Sync.eventDigests p.codec events with
    | .error failure => (m, .error failure)
    | .ok digests =>
      let combined := m.eventDigests request.device ∪ digests.toFinset
      if combined.card > maxEventDigests then (m, .ok (.bare 429))
      else ({ m with eventDigests := Function.update m.eventDigests request.device combined },
        .ok (.bare 200))

/-- The offset that a `ruledownload` asks for. -/
def pageOffset (p : Process) (session : Session) (request : Request) : Except Failure ℕ :=
  match request.body.get "cursor" with
  | none => pure 0
  | some (.str []) => pure 0
  | some (.str cursor) => offset p cursor request.device session
  | some _ => throw (.valueError "")

/-- The cursor behind the page at `offset`. -/
def nextCursor (p : Process) (device : Device) (session : Session) (offset : ℕ) : Except Failure Text :=
  if offset + 1 < session.snapshot.rules.length then cursor p device session (offset + 1) else pure []

def Model.ruledownload (p : Process) (m : Model) (session : Session) (request : Request) :
    Model × Except Failure Reply :=
  match pageOffset p session request with
  | .error (.valueError _) => (m, .ok (.bare 400))
  | .error failure => (m, .error failure)
  | .ok offset =>
    match session.snapshot.rules[offset]? with
    | none => (m, .error .lookupError)
    | some raw =>
      match p.codec.loads (.bytes raw) with
      | .error failure => (m, .error failure)
      | .ok rule =>
        -- The page counts as served before its cursor is made.
        (m.setSession request.device (some { session with served := insert offset session.served }),
          do
            let next ← nextCursor p request.device session offset
            return ⟨200, [(text "rules", .arr [rule]), (text "cursor", .str next)]⟩)

/-- `type(value) is int and value == count`. -/
def isCount (count : ℕ) : Option Json → Bool
  | some (.int n) => n = count
  | _ => false

def Model.postflight (m : Model) (session : Session) (request : Request) :
    Model × Except Failure Reply :=
  let count := session.snapshot.rules.length
  if isCount count (request.body.get "rules_received") ∧
      isCount count (request.body.get "rules_processed") ∧ session.served = Finset.range count ∧
      ((request.body.get "syncType").any fun value => value.isOneOf [text "CLEAN"]) then
    ({ m with acknowledged := Function.update m.acknowledged request.device session.snapshot.revision }
        |>.setSession request.device (some { session with acked := true }), .ok (.bare 200))
  else (m, .ok (.bare 409))

/-- The body names the device of the path. -/
def Request.named (request : Request) : Bool :=
  (request.body.get "machine_id").any fun value => value.isOneOf [request.device.name]

/-- `Model.handle`. -/
def Model.handle (p : Process) (m : Model) (request : Request) : Model × Except Failure Reply :=
  if ¬ request.named then (m, .ok (.bare 403))
  else if request.stage = .preflight then m.preflight request
  else match m.sessions request.device with
    | none => (m, .ok (.bare 409))
    | some session =>
      if ¬ session.live request.now then (m, .ok (.bare 409))
      else match request.stage with
        | .eventupload => m.eventupload p request
        | .ruledownload => m.ruledownload p session request
        | .postflight => m.postflight session request
        | .preflight | .other => (m, .ok (.bare 404))

end Sync
