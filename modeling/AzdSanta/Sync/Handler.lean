import Mathlib.Data.List.DropRight
import AzdSanta.Python.JsonReread
import AzdSanta.Sync.DurableModel
import AzdSanta.Sync.Paging

/-! `Handler.do_POST`: from the bytes of a request to a model and back to a status. -/
namespace Sync
open Checks Python

def maxBytes : ℕ := 65536

/-- A decompressed stream. -/
structure Inflated where
  raw : Bytes
  eof : Bool
  /-- Whether `unconsumed_tail` has bytes. -/
  unconsumed : Bool
  /-- Whether `unused_data` has bytes. -/
  unused : Bool

/-- What the handler computes with besides the packages of its interpreter. -/
structure Gateway where
  /-- `decompress(raw, MAX_BYTES + 1)`, as deflate or gzip; `none` is a `zlib.error`. -/
  inflate : (gzip : Bool) → Bytes → Option Inflated
  /-- The containers that `json.loads` can open in `decode`. -/
  room : ℕ

/-- What the `try` of `do_POST` can raise. -/
inductive Raised where
  | failure (failure : Failure)
  | zlibError
  | timeoutError

def Raised.status : Raised → Option ℕ
  | .failure .overflowError => some 413
  | .failure .lookupError => some 415
  | .failure (.valueError _) | .failure .recursionError | .zlibError | .timeoutError => some 400
  | .failure _ => none

/-- The `except` clauses. -/
def Raised.answer (raised : Raised) : Except Raised Reply :=
  match raised.status with
  | some status => .ok (.bare status)
  | none => .error raised

/-- The reader of `decode`: no constants, no key twice. -/
def decodeReader (i : Interpreter) (g : Gateway) : Reader where
  depth := g.room
  float := i.float
  constant _ := throw .valueError
  pairs := uniquePairs

/-- The part of `decode` behind the decompression. -/
def decodeBody (i : Interpreter) (g : Gateway) (raw : Bytes) : Except Failure Dict :=
  if raw.length > maxBytes then throw .overflowError
  else match decodeUtf8 false raw with
    | none => throw (.valueError "")
    | some input => do
      match ← ofJson ((decodeReader i g).loads input) with
      | .obj members => return members
      | _ => throw (.valueError "object required")

def decode (i : Interpreter) (g : Gateway) (raw : Bytes) (encoding : Text) : Except Raised Dict :=
  if encoding = text "deflate" ∨ encoding = text "gzip" then
    match g.inflate (encoding = text "gzip") raw with
    | none => throw .zlibError
    | some inflated =>
      if inflated.raw.length > maxBytes ∨ inflated.unconsumed then throw (.failure .overflowError)
      else if ¬ inflated.eof ∨ inflated.unused then throw (.failure (.valueError "incomplete or concatenated stream"))
      else (decodeBody i g inflated.raw).mapError .failure
  else if encoding ≠ [] then throw (.failure .lookupError)
  else (decodeBody i g raw).mapError .failure

/-- A space of ASCII. -/
def isSpace (c : ℕ) : Bool := (9 ≤ c && c ≤ 13) || c = 32

/-- Latin-1 as `int` takes it: the other spaces count as well when a character is not ASCII. -/
def asciiSpaces (t : Text) : Text :=
  if t.all (· < 128) then t
  else t.map fun c =>
    if isSpace c ∨ (28 ≤ c ∧ c ≤ 31) ∨ c = 133 ∨ c = 160 then 32 else if c < 128 then c else 63

/-- `int` of a header; `none` is a `ValueError`. -/
def parseInt (t : Text) : Option ℤ :=
  let body := ((asciiSpaces t).dropWhile isSpace).rdropWhile isSpace
  let (negative, digits) := match body with
    | 45 :: rest => (true, rest)
    | 43 :: rest => (false, rest)
    | rest => (false, rest)
  let groups := digits.splitOn 95
  if groups.all (fun group => group ≠ [] ∧ group.all isDigit) ∧ groups.flatten.length ≤ maxDigits then
    some (if negative then -readDecimal groups.flatten else readDecimal groups.flatten)
  else none

/-- A POST, with the clock and the random source behind it. -/
structure HttpRequest where
  path : Text
  authorization : List Text
  transferEncoding : Option Text
  contentLength : List Text
  contentType : Option Text
  contentEncoding : Option Text
  /-- The bytes that arrive. -/
  received : Bytes
  /-- Whether the connection ends behind them; else it stalls. -/
  ended : Bool
  now : ℚ
  stamp : ℚ
  id : Token

/-- The paths that are routed. -/
def routes : List (Text × Stage × Device) :=
  [(text "/preflight/device-a", .preflight, .a), (text "/preflight/device-b", .preflight, .b),
    (text "/eventupload/device-a", .eventupload, .a), (text "/eventupload/device-b", .eventupload, .b),
    (text "/ruledownload/device-a", .ruledownload, .a), (text "/ruledownload/device-b", .ruledownload, .b),
    (text "/postflight/device-a", .postflight, .a), (text "/postflight/device-b", .postflight, .b)]

/-- The token of the one `Authorization` header. -/
def bearer : List Text → Text
  | [header] => if text "Bearer " <+: header then header.drop 7 else []
  | _ => []

/-- `self.rfile.read(length)`, which has to return `length` bytes. -/
def HttpRequest.read (h : HttpRequest) (length : ℕ) : Except Raised Bytes :=
  if length ≤ h.received.length then pure (h.received.take length)
  else if h.ended then throw (.failure (.valueError "truncated request"))
  else throw .timeoutError

/-- The checks of `do_POST` on the headers: the answer of a refusal, else stage, device and length. -/
def HttpRequest.check (tokens : List (Text × Device)) (h : HttpRequest) :
    Except Reply (Stage × Device × ℕ) :=
  match routes.lookup h.path with
  | none => throw (.bare 404)
  | some (stage, device) =>
    if tokens.lookup (bearer h.authorization) ≠ some device then throw (.bare 401)
    else if (h.transferEncoding.getD []) ≠ [] then throw (.bare 400)
    else match h.contentLength with
      | [header] =>
        match parseInt header with
        | none => throw (.bare 400)
        | some length =>
          if ¬ (0 ≤ length ∧ length ≤ maxBytes) then throw (.bare 413)
          else if h.contentType ≠ some (text "application/json") then throw (.bare 415)
          else pure (stage, device, length.toNat)
      | _ => throw (.bare 400)

/-- `do_POST` up to the model: the answer without it, else the request for it. -/
def HttpRequest.admit (i : Interpreter) (g : Gateway) (tokens : List (Text × Device)) (h : HttpRequest) :
    Except (Except Raised Reply) Request :=
  match h.check tokens with
  | .error reply => .error (.ok reply)
  | .ok (stage, device, length) =>
    match (do decode i g (← h.read length) (h.contentEncoding.getD [])) with
    | .error raised => .error raised.answer
    | .ok body => .ok ⟨stage, device, body, h.now, h.stamp, h.id⟩

/-- What `do_POST` makes of the outcome of `handle`. -/
def answerOf : Except Failure Reply → Except Raised Reply
  | .ok reply => .ok reply
  | .error failure => (Raised.failure failure).answer

/-- `do_POST` on a `Model`. -/
def Model.doPost (i : Interpreter) (g : Gateway) (m : Model) (h : HttpRequest) :
    Model × Except Raised Reply :=
  match h.admit i g m.tokens with
  | .error answer => (m, answer)
  | .ok request =>
    let handled := m.handle i.process request
    (handled.1, answerOf handled.2)

/-- `do_POST` on a `DurableModel`. -/
def durablePost (i : Interpreter) (g : Gateway) (t : Tables) (m : Model) (h : HttpRequest) (faults : Faults) :
    Tables × Model × Except Raised Reply :=
  match h.admit i g m.tokens with
  | .error answer => (t, m, answer)
  | .ok request =>
    let handled := durableHandle i.process t m request faults
    (handled.1, handled.2.1, answerOf handled.2.2)

end Sync
