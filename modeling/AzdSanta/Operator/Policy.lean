import AzdSanta.SecurityStore.Guard
import Mathlib.Data.Char
import Mathlib.Data.List.Lex

/-! Accounts, verification devices and the session records of the operator policy.
Clock readings are milliseconds; durations keep the source's seconds. -/
namespace Operator
open Redis

/-- The values the policy digests. -/
inductive Json where
  | str (s : Bytes)
  | num (n : ℕ)
  | arr (items : List Json)

/-- What the policy calls outside the repository. -/
structure Primitives where
  /-- `_digest`: a salted HMAC of the JSON text. -/
  digest : Json → Bytes
  /-- `pyotp.TOTP(secret).at(step * 30)`. -/
  totpAt : Bytes → ℤ → Bytes

def localBackend : Bytes := "accounts.auth_backends.ZentralBackend".toList

def enrollSeconds : ℕ := 600

def challengeSeconds : ℕ := 300

def proofSeconds : ℕ := 8 * 3600

inductive Device where
  | totp (pk : ℕ) (secret : Bytes)
  | webauthn (type : Bytes) (pk : ℕ) (keyHandle publicKey rpId : Bytes)
  deriving DecidableEq

/-- `bytes.hex()`. -/
def hexText (v : Bytes) : Bytes :=
  v.flatMap fun c => [Nat.digitChar (c.toNat / 16), Nat.digitChar (c.toNat % 16)]

/-- `_material`. -/
def material (p : Primitives) : Device → Bytes
  | .totp pk secret => p.digest (.arr [.str "TOTP".toList, .num pk, .str secret])
  | .webauthn type pk keyHandle publicKey rpId =>
    p.digest (.arr [.str type, .num pk, .str keyHandle, .str (hexText publicKey), .str rpId])

/-- A row of the user table with its two device sets. -/
structure Account where
  pk : ℕ
  isActive : Bool
  isRemote : Bool
  isServiceAccount : Bool
  hasUsablePassword : Bool
  sessionAuthHash : Bytes
  devices : List Device

/-- `_factors`. -/
def factors (p : Primitives) (devices : List Device) : List Bytes :=
  (devices.map (material p)).insertionSort (· ≤ ·)

/-- `_material(device) in _factors(user)`. -/
def hasFactor (p : Primitives) (devices : List Device) (device : Device) : Bool :=
  material p device ∈ factors p devices

def factorsDigest (p : Primitives) (fs : List Bytes) : Bytes := p.digest (.arr (fs.map .str))

/-- `_local` without a request. -/
def isLocal (u : Account) : Bool :=
  u.isActive && !u.isRemote && !u.isServiceAccount && u.hasUsablePassword

/-- `_local` with a request: the session must be of the local backend too. -/
def isLocalIn (u : Account) (backend : Option Bytes) : Bool :=
  isLocal u && backend = some localBackend

/-- `str(user.pk)` and the session auth hash. -/
structure Stamp where
  user : ℕ
  auth : Bytes
  deriving DecidableEq

/-- `_stamp`. -/
def stamp (u : Account) : Stamp := ⟨u.pk, u.sessionAuthHash⟩

/-- The session entry under `ENROLL`. -/
structure Enrollment where
  stamp : Stamp
  issued : ℕ
  deriving DecidableEq

/-- The session entry under `PROOF`. -/
structure Proof where
  stamp : Stamp
  issued : ℕ
  factors : Bytes
  deriving DecidableEq

/-- `_fresh`. -/
def fresh (now : ℕ) (recorded : Stamp) (issued : ℕ) (u : Account) (ttl : ℕ) : Bool :=
  recorded = stamp u && issued ≤ now && now - issued ≤ ttl * 1000

/-- A digest that keeps the text of a string and of the last item of a list. -/
def samplePrimitives : Primitives where
  digest := fun
    | .str s => s
    | .arr items => (items.getLast?.elim [] fun | .str s => s | _ => [])
    | .num _ => []
  totpAt _ c := Lua.integerText c

def sampleAccount : Account where
  pk := 1
  isActive := true
  isRemote := false
  isServiceAccount := false
  hasUsablePassword := true
  sessionAuthHash := "h".toList
  devices := [.totp 1 "s".toList]

end Operator
