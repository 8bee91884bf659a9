import AzdSanta.Setup.Host

/-! The sealed setup envelope: what a recipient key is checked for and what is encrypted to it.
`none` stands for any exception of these functions. -/
namespace Recovery
open Python Setup

/-- `urlsplit(value)` with the properties of its result; `port` is a `ValueError` when `none`. -/
structure Url where
  scheme : Text
  netloc : Text
  path : Text
  query : Text
  fragment : Text
  hostname : Option Text
  username : Option Text
  password : Option Text
  port : Option (Option ℕ)

/-- What `load_der_public_key` returns. -/
structure PublicKey where
  /-- `isinstance(key, rsa.RSAPublicKey)`. -/
  rsa : Bool
  size : ℕ
  exponent : ℕ
  /-- `public_bytes(DER, SubjectPublicKeyInfo)`. -/
  der : Bytes
  /-- `encrypt(value, OAEP(SHA-256))`. -/
  wrap : Bytes → Bytes

/-- The libraries under the recovery command. -/
structure Library where
  sha : Bytes → Text
  urlsplit : Text → Option Url
  loadKey : Bytes → Option PublicKey
  /-- `AESGCM(key).encrypt(nonce, data, aad)` with the nonce and the data in this order. -/
  aesGcm : Bytes → Bytes → Bytes → Bytes → Bytes
  /-- `AESGCM.generate_key` and `token_bytes(12)`, for the probe and for the artifact. -/
  dataKey : Bool → Bytes
  nonce : Bool → Bytes
  /-- `json` under the interpreter. -/
  room : ℕ

/-- `target_digest`. -/
def Library.targetDigest (lib : Library) (username email : Text) : Option Text := do
  let first ← encodeUtf8 username
  let second ← encodeUtf8 email
  guard (first.length ≤ 2048 ∧ second.length ≤ 2048)
  return lib.sha (packLength first.length ++ first ++ (packLength second.length ++ second))

def isAlnum (c : ℕ) : Bool := isLowerOrDigit c || (65 ≤ c && c ≤ 90)

/-- `re.fullmatch(r'[A-Za-z0-9](?:[A-Za-z0-9.-]*[A-Za-z0-9])?', s)`. -/
def isHostname (s : Text) : Bool :=
  s ≠ [] && s.head?.any isAlnum && s.getLast?.any isAlnum && s.all fun c => isAlnum c || c = 46 || c = 45

/-- `value.lower()` of ASCII text. -/
def asciiLower (s : Text) : Text := s.map fun c => if 65 ≤ c ∧ c ≤ 90 then c + 32 else c

/-- `origin`. -/
def Library.origin (lib : Library) (value : Text) : Option Text := do
  guard (value.all (· < 128) ∧ value.length ≤ 256)
  let parsed ← lib.urlsplit value
  let port ← parsed.port
  let hostname ← parsed.hostname
  guard (parsed.scheme = text "https" ∧ hostname ≠ [] ∧ (parsed.username.getD []) = [] ∧
    (parsed.password.getD []) = [] ∧ parsed.query = [] ∧ parsed.fragment = [] ∧
    (parsed.path = [] ∨ parsed.path = [47]) ∧ isHostname hostname ∧
    (port.all fun n => 1 ≤ n && n ≤ 65535))
  let suffix := match port with
    | some n => if n ≠ 443 then 58 :: decimal n else []
    | none => []
  return text "https://" ++ asciiLower hostname ++ suffix

def algorithm : Text := text "RSA-OAEP-256+A256GCM"

/-- `aad`. -/
def associated (mode kid context target : Text) : Option Bytes :=
  let joined := text "azd-santa-operator-setup/v1|" ++ algorithm ++ 124 :: mode ++ 124 :: kid ++
    124 :: context ++ 124 :: target
  if joined.all (· < 128) then encodeUtf8 joined else none

structure Recipient where
  key : PublicKey
  kid : Text
  context : Text
  target : Text
  mode : Text
  expectedOrigin : Text

/-- The payload of an envelope. -/
structure Payload where
  setupUrl : Text
  /-- `expires_at_unix`, as `json` prints it. -/
  expires : Json
  targetPk : ℕ

def Payload.json (p : Payload) : Json :=
  .obj [(text "setup_url", .str p.setupUrl), (text "expires_at_unix", p.expires),
    (text "target_pk", .int p.targetPk)]

/-- `separators=(',', ':')`. -/
def Library.compact (lib : Library) (ascii : Bool) : Writer where
  depth := lib.room
  ascii := ascii
  sorted := false
  nan := true
  comma := [44]
  colon := [58]

def maxEnvelopeBytes : ℕ := 2600

/-- `Recipient._encrypt`; `probe` tells the two calls apart. -/
def Recipient.encrypt (lib : Library) (r : Recipient) (probe : Bool) (payload : Payload) :
    Option Json := do
  let data ← ((lib.compact false).dumpsBytes payload.json).toOption
  let aad ← associated r.mode r.kid r.context r.target
  let ciphertext := lib.aesGcm (lib.dataKey probe) (lib.nonce probe) data aad
  let result := Json.obj [(text "scope", .str (text "azd-santa-sealed-setup")), (text "version", .int 1),
    (text "algorithm", .str algorithm), (text "mode", .str r.mode), (text "kid_sha256", .str r.kid),
    (text "context_sha256", .str r.context), (text "target_sha256", .str r.target),
    (text "wrapped_key_base64", .str (b64encode false (r.key.wrap (lib.dataKey probe)))),
    (text "nonce_base64", .str (b64encode false (lib.nonce probe))),
    (text "ciphertext_base64", .str (b64encode false ciphertext))]
  let printed ← ((lib.compact true).dumpsBytes result).toOption
  guard (printed.length ≤ maxEnvelopeBytes)
  return result

structure Target where
  pk : ℕ
  username : Text
  email : Text
  deriving DecidableEq

/-- The counts of what a reset removes. -/
structure Removed where
  totp : ℕ
  webauthn : ℕ
  humanTokens : ℕ
  humanOidcIssuers : ℕ
  deriving DecidableEq

/-- The private setup artifact. -/
structure Artifact where
  mode : Text
  target : Target
  reason : Text
  removed : Removed
  setupUrl : Text
  expires : Json

/-- `[0-9a-z]{1,16}-[0-9a-f]{32}`. -/
def isResetToken (s : Text) : Bool :=
  let stamp := s.takeWhile (· ≠ 45)
  1 ≤ stamp.length && stamp.length ≤ 16 && stamp.all isLowerOrDigit &&
    s[stamp.length]? = some 45 && isHex 32 (s.drop (stamp.length + 1))

/-- The `uid` of `/accounts/reset/(?P<uid>[A-Za-z0-9_-]{1,32})/[0-9a-z]{1,16}-[0-9a-f]{32}/`. -/
def resetUid (path : Text) : Option Text :=
  match path.splitOn 47 with
  | [[], accounts, reset, uid, token, []] =>
    if accounts = text "accounts" ∧ reset = text "reset" ∧ isPathPart uid ∧ uid.length ≤ 32 ∧
      isResetToken token then some uid else none
  | _ => none

/-- `type(expires) in (int, float) and math.isfinite(expires) and expires > 0`. -/
def expiryValid : Json → Bool
  | .int n => 0 < n
  | .float repr =>
    repr ≠ text "nan" && repr ≠ text "inf" && repr.head? ≠ some 45 && repr ≠ text "0.0"
  | _ => false

/-- `Recipient.seal`. -/
def Recipient.seal (lib : Library) (r : Recipient) (a : Artifact) : Option Json := do
  guard (a.mode = r.mode)
  guard ((← lib.targetDigest a.target.username a.target.email) = r.target)
  guard (a.setupUrl.all (· < 128) ∧ a.setupUrl.length ≤ 768)
  let parsed ← lib.urlsplit a.setupUrl
  guard ((← lib.origin (text "https://" ++ parsed.netloc)) = r.expectedOrigin ∧
    parsed.scheme = text "https" ∧ parsed.query = [] ∧ parsed.fragment = [])
  let uid ← resetUid parsed.path
  guard (1 ≤ a.target.pk ∧ a.target.pk ≤ 2 ^ 63 - 1 ∧ expiryValid a.expires)
  let raw ← b64decode true (uid ++ List.replicate ((4 - uid.length % 4) % 4) 61)
  guard ((← decodeAscii raw) = decimal a.target.pk)
  r.encrypt lib false ⟨a.setupUrl, a.expires, a.target.pk⟩

/-- `prepare_recipient`. -/
def Library.prepareRecipient (lib : Library) (publicKey context mode username email setupOrigin : Text) :
    Option Recipient := do
  guard (mode ∈ modes ∧ isHex 64 context)
  guard (publicKey.length ≤ 1024)
  let raw ← b64decode false publicKey
  guard (b64encode false raw = publicKey)
  let key ← lib.loadKey raw
  guard (key.rsa ∧ key.size = 3072 ∧ key.exponent = 65537 ∧ key.der = raw)
  let r : Recipient := ⟨key, lib.sha raw, context, ← lib.targetDigest username email, mode,
    ← lib.origin setupOrigin⟩
  let _ ← r.encrypt lib true
    ⟨List.replicate 768 120, .float (text "9999999999.999999"), 2 ^ 63 - 1⟩
  return r

end Recovery
