import AzdSanta.Admission.Config
import AzdSanta.SecurityStore.Guard

/-! The admission scripts, statement by statement. Numeric arguments are Python
integers sent in decimal and read back with `tonumber`, so they are numbers here. -/
namespace Admission
open Redis SecurityStore Checks

/-- `secrets.token_urlsafe(32)`. -/
abbrev Token := {t : Bytes // t.length = 43 ∧ Lua.matchAll Lua.urlsafe t = true}

/-- `secrets.token_hex(16)`. -/
abbrev Generation := {g : Bytes // g.length = 32 ∧ Lua.matchAll Lua.hex g = true}

/-- What every script of one deployment is sent: the expected store identity, the
configuration and its fingerprint. -/
structure Site where
  storeId : Bytes
  fingerprint : Bytes
  config : Config

def admissionUnavailable : Error := .reply "ADMISSION_UNAVAILABLE"

def quiescenceRequired : Error := .reply "ADMISSION_QUIESCENCE_REQUIRED"

def configField : Bytes := "config".toList

def generationField : Bytes := "generation".toList

/-- One iteration of the field loop of `VALIDATE`. -/
def fieldValid (capacity : ℕ) (h : Fields) (field : Bytes) : Bool :=
  field = configField || field = generationField ||
    match Lua.tonumber field, h.lookup field with
    | some i, some token =>
      field.length = 1 && Lua.matchAll Lua.digit field && i < capacity && Lua.tostring i = field &&
        token.length = 43 && Lua.matchAll Lua.urlsafe token
    | _, _ => false

/-- `VALIDATE`. -/
def validate (site : Site) (s : Store Key) : Except Error Unit := do
  if s.typeOf .admissionState ≠ "hash" ∨ s.ttl .admissionState ≠ -1 then throw admissionUnavailable
  if (← s.hget .admissionState configField) ≠ some site.fingerprint then throw admissionUnavailable
  let generation ← s.hget .admissionState generationField
  if ¬ generation.any (fun g => g.length = 32 && Lua.matchAll Lua.hex g) then
    throw admissionUnavailable
  if (← s.hlen .admissionState) > 2 + site.config.capacity then throw admissionUnavailable
  let h ← s.hgetall .admissionState
  if ¬ h.keys.all (fieldValid site.config.capacity h) then throw admissionUnavailable

/-- The check of one counter in `ACQUIRE` and `GLOBAL_COUNTER`; an absent counter reads 0. -/
def readCounter (k : Key) (limit window : ℕ) (s : Store Key) : Except Error ℕ := do
  match ← s.get k with
  | none => return 0
  | some v =>
    match Lua.tonumber v with
    | none => throw admissionUnavailable
    | some n =>
      if v.length > 5 ∨ n < 1 ∨ Lua.tostring n ≠ v ∨ n > limit ∨ s.ttl k < 0 ∨ s.ttl k > window then
        throw admissionUnavailable
      return n

/-- Create the counter with its one window, or count within the window it has. -/
def bump (k : Key) (count window : ℕ) : Script Key Unit :=
  if count = 0 then Script.setEx k "1".toList window
  else do
    let _ ← Script.incr k
    pure ()

def firstFree (capacity : ℕ) (h : Fields) : Option Bytes :=
  ((List.range capacity).map Lua.tostring).find? fun slot => (h.lookup slot).isNone

inductive Reply where
  /-- `{0, retry}`. -/
  | rejected (retry : ℤ)
  /-- `{1, slot}`. -/
  | granted (slot : Bytes)
  | number (n : ℕ)
  deriving DecidableEq

/-- `ACQUIRE`. Validation precedes every write; the global counter is bumped before
the identity limits are looked at. -/
def acquire (site : Site) (source credential token : Bytes) : Script Key Reply := do
  let c := site.config
  Script.query (validate site)
  let globalCount ← Script.query (readCounter .syncGlobal c.globalMax c.window)
  let sourceCount ← Script.query (readCounter (.syncSource source) c.sourceMax c.window)
  let credentialCount ← Script.query (readCounter (.syncCredential credential) c.credentialMax c.window)
  if globalCount ≥ c.globalMax then
    return .rejected (max 1 (← Script.query fun s => .ok (s.ttl .syncGlobal)))
  else
  bump .syncGlobal globalCount c.window
  if sourceCount ≥ c.sourceMax then
    return .rejected (max 1 (← Script.query fun s => .ok (s.ttl (.syncSource source))))
  else if credentialCount ≥ c.credentialMax then
    return .rejected (max 1 (← Script.query fun s => .ok (s.ttl (.syncCredential credential))))
  else
  match firstFree c.capacity (← Script.query fun s => s.hgetall .admissionState) with
  | none => return .rejected 1
  | some slot =>
    bump (.syncSource source) sourceCount c.window
    bump (.syncCredential credential) credentialCount c.window
    Script.hset .admissionState slot token
    return .granted slot

/-- `RELEASE`: only the exact owner token frees the slot. -/
def release (site : Site) (slot token : Bytes) : Script Key Reply := do
  Script.query (validate site)
  if (← Script.query fun s => s.hget .admissionState slot) ≠ some token then return .number 0
  else
  Script.hdel .admissionState slot
  return .number 1

/-- `GLOBAL_COUNTER`. -/
def globalCounter (site : Site) (s : Store Key) : Except Error Unit := do
  if s.typeOf .syncGlobal ≠ "none" ∧ s.typeOf .syncGlobal ≠ "string" then throw admissionUnavailable
  let _ ← readCounter .syncGlobal site.config.globalMax site.config.window s

/-- `CHECK`. -/
def check (site : Site) : Script Key Reply := do
  Script.query (validate site)
  Script.query (globalCounter site)
  return .number 1

/-- `EMPTY`. -/
def empty (site : Site) : Script Key Reply := do
  Script.query (validate site)
  Script.query (globalCounter site)
  if (← Script.query fun s => s.hlen .admissionState) ≠ 2 then Script.fail quiescenceRequired
  else return .number 1

def deleteSlots : List ℕ → Script Key Unit
  | [] => pure ()
  | i :: rest => do
    Script.hdel .admissionState (Lua.tostring i)
    deleteSlots rest

/-- `RECONCILE`. -/
def reconcile (site : Site) (generation : Bytes) : Script Key Reply := do
  Script.query (validate site)
  deleteSlots (List.range site.config.capacity)
  Script.hset .admissionState generationField generation
  return .number 1

/-- `initialize_fresh`: one atomic operation writes the marker and the admission state. -/
def initializeFresh (site : Site) (delay : ℕ) (generation : Bytes) : Script Key Reply := do
  if ← Script.query fun s => .ok (s.exist .marker || s.exist .admissionState) then return .number 0
  else
  let ready := (← Script.query fun s => .ok s.seconds) + delay
  Script.set .marker (markerText site.storeId ready)
  Script.hset .admissionState configField site.fingerprint
  Script.hset .admissionState generationField generation
  return .number 1

/-- `_eval`: the guard of the security store runs first in the same operation. -/
def eval (site : Site) (script : Script Key Reply) : Script Key Reply :=
  storeOperation site.storeId script

/-- The store left by `initialize_fresh` on an empty keyspace. -/
def freshStore (site : Site) (now delay : ℕ) (generation : Generation) : Store Key :=
  ((initializeFresh site delay generation).run (Store.empty now)).2

end Admission
