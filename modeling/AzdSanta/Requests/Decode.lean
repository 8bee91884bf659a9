import AzdSanta.Setup.Host

/-! `decode_bytes`: the bounded JSON input of the public endpoints. -/
namespace Requests
open Python

structure Limits where
  compressed : ℕ
  expanded : ℕ
  depth : ℕ
  events : ℕ
  deriving DecidableEq

/-- One limit of the environment, with its default and its ceiling. -/
def configuredLimit (environ : Text → Option Text) (name : String) (default ceiling : ℕ) : Option ℕ :=
  let raw := (environ (text "AZD_SANTA_MAX_" ++ text name)).getD (decimal default)
  if raw = [] ∨ ¬ raw.all isDigit ∨ raw.length > maxDigits then none
  else if 1 ≤ readDecimal raw ∧ readDecimal raw ≤ ceiling then some (readDecimal raw)
  else none

/-- `configured_limits`; `none` stands for its `ValueError`, without which nothing starts. -/
def configuredLimits (environ : Text → Option Text) : Option Limits := do
  let compressed ← configuredLimit environ "COMPRESSED" (1024 * 1024) (4 * 1024 * 1024)
  let expanded ← configuredLimit environ "EXPANDED" (4 * 1024 * 1024) (16 * 1024 * 1024)
  let depth ← configuredLimit environ "DEPTH" 32 64
  let events ← configuredLimit environ "EVENTS" 100 1000
  return ⟨compressed, expanded, depth, events⟩

def eventCollections : List Text :=
  [text "events", text "file_access_events", text "audit_events", text "network_mount_events",
    text "network_flow_events", text "usb_mount_events"]

/-- What a `decompressobj` shows after one call of `decompress`. -/
structure Inflated where
  output : Bytes
  unconsumedTail : Bytes
  unusedData : Bytes
  eof : Bool
  deriving DecidableEq

/-- `zlib` with its documented behaviour. `gzip` is the choice of `wbits`. -/
structure Zlib where
  /-- `decompressobj(wbits).decompress(raw, max_length)`; `none` stands for `zlib.error`. -/
  decompress : Bool → Bytes → ℕ → Option Inflated
  /-- One complete stream, with nothing behind it, of these bytes. -/
  Stream : Bool → Bytes → Bytes → Prop
  /-- Below the limit a complete stream is read to its end. -/
  reads : ∀ gzip raw body n, Stream gzip raw body → body.length < n →
    decompress gzip raw n = some ⟨body, [], [], true⟩
  /-- At its end with nothing left over, the stream was complete. -/
  complete : ∀ gzip raw body n, decompress gzip raw n = some ⟨body, [], [], true⟩ → Stream gzip raw body

/-- What the interpreter brings along. -/
structure Platform where
  zlib : Zlib
  /-- `repr(float(literal))`. -/
  float : Text → Text
  /-- `str.lower`. -/
  lower : Text → Text
  /-- Containers that `json` can open inside each other. -/
  room : ℕ

/-- The `encoding` argument. -/
inductive Encoding where
  | none
  | str (s : Text)
  | other

inductive Raised where
  | rejected (status : ℕ) (detail : String)
  | unicodeError
  | json (e : JsonError)
  deriving DecidableEq

/-- Where the loop of `_check_depth` stands. -/
structure Cursor where
  depth : ℤ
  quoted : Bool
  escaped : Bool

/-- `_check_depth`, from a place in the text on. -/
def checkDepth (maximum : ℕ) : Cursor → Text → Except Raised Unit
  | _, [] => pure ()
  | c, char :: rest =>
    if c.quoted then
      if c.escaped then checkDepth maximum { c with escaped := false } rest
      else if char = 92 then checkDepth maximum { c with escaped := true } rest
      else if char = 34 then checkDepth maximum { c with quoted := false } rest
      else checkDepth maximum c rest
    else if char = 34 then checkDepth maximum { c with quoted := true } rest
    else if char = 91 ∨ char = 123 then
      if c.depth + 1 > maximum then throw (.rejected 400 "JSON nesting limit exceeded")
      else checkDepth maximum { c with depth := c.depth + 1 } rest
    else if char = 93 ∨ char = 125 then checkDepth maximum { c with depth := c.depth - 1 } rest
    else checkDepth maximum c rest

/-- The hooks of `json.loads`. `_float` raises on a literal that is not finite; nothing that was read
is dropped here, so that the value shows such a literal. -/
def hooks (p : Platform) : Reader where
  depth := p.room
  float := p.float
  constant _ := throw .valueError
  pairs := uniquePairs

mutual

/-- A number inside that `math.isfinite` denies. -/
def isNonFinite : Json → Bool
  | .float repr => (nonFinite.lookup repr).isSome
  | .arr items => anyItem items
  | .obj members => anyMember members
  | _ => false

def anyItem : List Json → Bool
  | [] => false
  | v :: items => isNonFinite v || anyItem items

def anyMember : List (Text × Json) → Bool
  | [] => false
  | (_, v) :: members => isNonFinite v || anyMember members

end

def loads (p : Platform) (input : Text) : Except Raised Json :=
  match (hooks p).loads input with
  | .error e => throw (.json e)
  | .ok data => if isNonFinite data then throw (.json .valueError) else pure data

/-- The body of the second `try`. -/
def readText (p : Platform) (limits : Limits) (raw : Bytes) : Except Raised Json :=
  match decodeUtf8 false raw with
  | none => throw .unicodeError
  | some input => do
    checkDepth limits.depth ⟨0, false, false⟩ input
    loads p input

/-- `except RequestRejected` and `except (UnicodeError, ValueError, RecursionError)`. -/
def handled {α : Type} (x : Except Raised α) : Except Raised α :=
  match x with
  | .error .unicodeError | .error (.json _) => .error (.rejected 400 "Invalid JSON request")
  | x => x

/-- The first `try` and the checks of the decompressor. -/
def inflate (p : Platform) (limits : Limits) (gzip : Bool) (raw : Bytes) : Except Raised Bytes :=
  match p.zlib.decompress gzip raw (limits.expanded + 1) with
  | none => throw (.rejected 400 "Invalid compressed request")
  | some d =>
    if d.output.length > limits.expanded ∨ d.unconsumedTail ≠ [] then
      throw (.rejected 413 "Expanded body limit exceeded")
    else if ¬ d.eof ∨ d.unusedData ≠ [] then
      throw (.rejected 400 "Incomplete or trailing compressed data")
    else pure d.output

/-- `(encoding or '').strip().lower()`. -/
def coding (p : Platform) : Encoding → Option Text
  | .none => some []
  | .str s => some (p.lower (Setup.strip s))
  | .other => none

def compressions : List Text := [text "deflate", text "zlib", text "gzip"]

def expand (p : Platform) (limits : Limits) (coding : Text) (raw : Bytes) : Except Raised Bytes :=
  if coding ∈ compressions then inflate p limits (coding = text "gzip") raw
  else if coding ≠ [] ∧ coding ≠ text "identity" then throw (.rejected 415 "Unsupported Content-Encoding")
  else pure raw

/-- `isinstance(v, dict)`. -/
def isObject : Json → Bool
  | .obj _ => true
  | _ => false

/-- The loop over the event collections, with the count so far. -/
def countEvents (members : List (Text × Json)) : List Text → ℕ → Except Raised ℕ
  | [], count => pure count
  | name :: names, count =>
    match members.lookup name with
    | none => countEvents members names count
    | some (.arr events) =>
      if events.any fun event => !isObject event then throw (.rejected 400 "Invalid event collection")
      else countEvents members names (count + events.length)
    | some _ => throw (.rejected 400 "Invalid event collection")

/-- The checks of the value. -/
def checkData (limits : Limits) : Json → Except Raised Json
  | .obj members => do
    let count ← countEvents members eventCollections 0
    if count > limits.events then throw (.rejected 413 "Event batch limit exceeded")
    else pure (.obj members)
  | _ => throw (.rejected 400 "JSON object required")

/-- `decode_bytes`. -/
def decodeBytes (p : Platform) (limits : Limits) (raw : Bytes) (encoding : Encoding) :
    Except Raised Json :=
  if raw.length > limits.compressed then throw (.rejected 413 "Request body limit exceeded")
  else match coding p encoding with
    | none => throw (.rejected 415 "Unsupported Content-Encoding")
    | some coding => do
      let raw ← expand p limits coding raw
      if raw.length > limits.expanded then throw (.rejected 413 "Expanded body limit exceeded")
      else do
        let data ← handled (readText p limits raw)
        checkData limits data

end Requests
