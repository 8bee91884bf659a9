import Mathlib.Data.List.DropRight
import AzdSanta.Python.Base64
import AzdSanta.Python.Json

/-! The host side of the operator setup: the request it is given and the envelope it returns.
`none` stands for any exception; the program ends with the same message for all of them. -/
namespace Setup
open Python

/-- What the host program computes with. -/
structure Host where
  /-- The containers that `json` can open. -/
  room : ℕ
  /-- `repr(float(literal))`. -/
  float : Text → Text
  /-- `sha`: the hex digest. -/
  sha : Bytes → Text

abbrev Members := List (Text × Json)

def field (members : Members) (key : String) : Option Json := members.lookup (text key)

/-- A field that has to be a string. -/
def stringField (members : Members) (key : String) : Option Text :=
  match field members key with
  | some (.str s) => some s
  | _ => none

/-- `set(value) == names`. -/
def hasFields (members : Members) (names : List Text) : Bool :=
  (members.map Prod.fst).all (· ∈ names) && names.all (· ∈ members.map Prod.fst)

/-- The reader of `loads`. -/
def Host.reader (h : Host) : Reader := { Reader.standard h.room h.float with pairs := uniquePairs }

/-- A `str` or `bytes` argument. -/
inductive Raw where
  | str (s : Text)
  | bytes (b : Bytes)

def Raw.length : Raw → ℕ
  | .str s => s.length
  | .bytes b => b.length

/-- `loads`. -/
def Host.loads (h : Host) : Raw → Option Json
  | .str s => (h.reader.loads s).toOption
  | .bytes b => (h.reader.loadsBytes b).toOption

/-- The options of `encoded`. -/
def Host.writer (h : Host) : Writer where
  depth := h.room
  ascii := false
  sorted := false
  nan := true
  comma := [44]
  colon := [58]

/-- `encoded`. -/
def Host.encoded (h : Host) (value : Json) : Option Bytes := (h.writer.dumpsBytes value).toOption

def isLowerHex (c : ℕ) : Bool := isDigit c || (97 ≤ c && c ≤ 102)

/-- `re.fullmatch('[0-9a-f]{n}', s)`. -/
def isHex (n : ℕ) (s : Text) : Bool := s.length = n && s.all isLowerHex

/-- `GUID.fullmatch(s)`. -/
def isGuid (s : Text) : Bool :=
  (s.splitOn 45).map List.length = [8, 4, 4, 4, 12] && (s.splitOn 45).all fun part => part.all isLowerHex

def isLowerOrDigit (c : ℕ) : Bool := isDigit c || (97 ≤ c && c ≤ 122)

/-- `re.fullmatch('[a-z0-9-]{2,32}', s)`. -/
def isEnvironmentName (s : Text) : Bool := 2 ≤ s.length && s.length ≤ 32 && s.all fun c => isLowerOrDigit c || c = 45

/-- A character of `[A-Za-z0-9_-]`. -/
def isPathChar (c : ℕ) : Bool := isLowerOrDigit c || (65 ≤ c && c ≤ 90) || c = 95 || c = 45

def isPathPart (s : Text) : Bool := s ≠ [] && s.all isPathChar

/-- `re.fullmatch(r'/(?:[A-Za-z0-9_-]+/)+[A-Za-z0-9_-]+\.json', s)`. -/
def isComposePath (s : Text) : Bool :=
  match s with
  | 47 :: rest =>
    let parts := rest.splitOn 47
    let file := parts.getLastD []
    2 ≤ parts.length && parts.dropLast.all isPathPart &&
      file.drop (file.length - 5) = text ".json" && isPathPart (file.take (file.length - 5))
  | _ => false

/-- `re.fullmatch('sha256:[0-9a-f]{64}', s)`. -/
def isImageId (s : Text) : Bool := text "sha256:" <+: s && isHex 64 (s.drop 7)

/-- The spaces of `str.strip`. -/
def isStripped (c : ℕ) : Bool :=
  (9 ≤ c && c ≤ 13) || (28 ≤ c && c ≤ 32) || c = 133 || c = 160 || c = 5760 || (8192 ≤ c && c ≤ 8202) ||
    c = 8232 || c = 8233 || c = 8239 || c = 8287 || c = 12288

/-- `s.strip()`. -/
def strip (s : Text) : Text := (s.dropWhile isStripped).rdropWhile isStripped

/-- The check of `username`, `email` and `reason`. -/
def isIdentity (limit : ℕ) (s : Text) : Bool :=
  0 < s.length && s.length ≤ limit && strip s = s && s.all fun c => 32 ≤ c

/-- `struct.pack('>I', n)`. -/
def packLength (n : ℕ) : Bytes :=
  [.ofNat (n / 16777216), .ofNat (n / 65536), .ofNat (n / 256), .ofNat n]

/-- `target`. -/
def Host.target (h : Host) (username email : Text) : Option Text := do
  let first ← encodeUtf8 username
  let second ← encodeUtf8 email
  return h.sha (packLength first.length ++ first ++ (packLength second.length ++ second))

/-- `BINDINGS`, sorted. -/
def bindings : List Text :=
  [text "AdmissionSha256", text "ComposePath", text "ComposeSha256", text "EnvironmentName", text "ImageId",
    text "Origin", text "RecoverySha256", text "RemoteProgramSha256", text "ResourceGroup", text "SealedSha256",
    text "SourceCommit", text "SubscriptionId", text "TenantId", text "VmId", text "VmInstanceId", text "VmName"]

def requestFields : List Text :=
  [text "context", text "context_sha256", text "recipient_public_key", text "username", text "email", text "reason"]

def contextFields : List Text :=
  [text "scope", text "nonce", text "binding", text "mode", text "target_sha256", text "recipient_sha256"]

def modes : List Text := [text "bootstrap", text "recover"]

/-- A request that was accepted. -/
structure Request where
  nonce : Text
  binding : Members
  mode : Text
  targetSha256 : Text
  recipientSha256 : Text
  contextSha256 : Text
  recipientPublicKey : Text
  username : Text
  email : Text
  reason : Text

/-- The path of the VM that the other fields select. -/
def vmId (subscription group : Text) : Text :=
  text "/subscriptions/" ++ subscription ++ text "/resourceGroups/" ++ group ++
    text "/providers/Microsoft.Compute/virtualMachines/vm-santa-lab"

/-- The checks of the binding. -/
def checkBinding (binding : Members) : Option Unit := do
  guard (["TenantId", "SubscriptionId", "VmInstanceId"].all fun key => (stringField binding key).any isGuid)
  guard (["ComposeSha256", "AdmissionSha256", "RecoverySha256", "SealedSha256", "RemoteProgramSha256"].all
    fun key => (stringField binding key).any (isHex 64))
  guard (isImageId (← stringField binding "ImageId") ∧ isHex 40 (← stringField binding "SourceCommit"))
  let environment ← stringField binding "EnvironmentName"
  let group ← stringField binding "ResourceGroup"
  guard (isEnvironmentName environment ∧ group = text "rg-azd-santa-vm-" ++ environment ∧
    (← stringField binding "VmName") = text "vm-santa-lab")
  let path ← stringField binding "ComposePath"
  guard ((← stringField binding "VmId") = vmId (← stringField binding "SubscriptionId") group ∧
    path.length ≤ 512)
  guard (isComposePath path)
  let origin ← stringField binding "Origin"
  guard (origin.all (· < 128) ∧ origin.length ≤ 256 ∧ text "https://" <+: origin)

/-- The checks of the context. -/
def Host.checkContext (h : Host) (context binding : Members) (digest : Text) : Option Unit := do
  guard (context.map Prod.fst = contextFields)
  guard (binding.map Prod.fst = bindings ∧ binding.all fun m => m.2 matches .str _)
  guard ((← stringField context "scope") = text "azd-santa-setup-request-v1" ∧
    (← stringField context "mode") ∈ modes)
  guard (["nonce", "target_sha256", "recipient_sha256"].all fun key => (stringField context key).any (isHex 64))
  guard (isHex 64 digest ∧ h.sha (← h.encoded (.obj context)) = digest)

/-- `request_from_environment`, on the value of the variable. -/
def Host.requestFromEnvironment (h : Host) (value : Text) : Option (Request × Bytes) := do
  guard (value.length ≤ 16384)
  let raw ← b64decode false value
  guard (b64encode false raw = value)
  let input ← decodeUtf8 false raw
  let .obj request ← h.loads (.str input) | none
  guard (hasFields request requestFields)
  let .obj context ← field request "context" | none
  let .obj binding ← field context "binding" | none
  let digest ← stringField request "context_sha256"
  h.checkContext context binding digest
  let username ← stringField request "username"
  let email ← stringField request "email"
  let reason ← stringField request "reason"
  guard (isIdentity 150 username ∧ isIdentity 254 email ∧ isIdentity 256 reason)
  let target ← stringField context "target_sha256"
  guard ((← h.target username email) = target)
  let publicKey ← stringField request "recipient_public_key"
  let key ← b64decode false publicKey
  let recipient ← stringField context "recipient_sha256"
  guard (key.length ≤ 768 ∧ b64encode false key = publicKey ∧ h.sha key = recipient)
  checkBinding binding
  return (⟨← stringField context "nonce", binding, ← stringField context "mode", target, recipient, digest, publicKey,
    username, email, reason⟩, raw)

def envelopeFields : List Text :=
  [text "scope", text "version", text "algorithm", text "mode", text "kid_sha256", text "context_sha256",
    text "target_sha256", text "wrapped_key_base64", text "nonce_base64", text "ciphertext_base64"]

/-- A canonical base64 field of `low` to `high` bytes. -/
def checkEncoded (members : Members) (key : String) (low high : ℕ) : Option Unit := do
  let value ← stringField members key
  let decoded ← b64decode false value
  guard (low ≤ decoded.length ∧ decoded.length ≤ high ∧ b64encode false decoded = value)

/-- `envelope`. -/
def Host.envelope (h : Host) (raw : Raw) (request : Request) : Option Bytes := do
  guard (raw.length ≤ 2600)
  let .obj value ← h.loads raw | none
  guard (hasFields value envelopeFields)
  let .int version ← field value "version" | none
  guard ((← stringField value "scope") = text "azd-santa-sealed-setup" ∧ version = 1 ∧
    (← stringField value "algorithm") = text "RSA-OAEP-256+A256GCM" ∧
    (← stringField value "mode") = request.mode ∧
    (← stringField value "context_sha256") = request.contextSha256 ∧
    (← stringField value "kid_sha256") = request.recipientSha256 ∧
    (← stringField value "target_sha256") = request.targetSha256)
  checkEncoded value "wrapped_key_base64" 384 384
  checkEncoded value "nonce_base64" 12 12
  checkEncoded value "ciphertext_base64" 17 1600
  h.encoded (.obj value)

end Setup
