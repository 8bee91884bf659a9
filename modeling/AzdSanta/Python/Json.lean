import Mathlib.Data.List.Sort
import Mathlib.Data.List.Lex
import AzdSanta.Python.Text

/-! The `json` package: values, `json.loads` and `json.dumps`. -/
namespace Python

/-- What `json.loads` returns; a float is kept as its `repr`. -/
inductive Json where
  | null
  | bool (b : Bool)
  | int (n : ℤ)
  | float (repr : Text)
  | str (s : Text)
  | arr (items : List Json)
  | obj (members : List (Text × Json))

/-- `value in options`. -/
def Json.isOneOf (options : List Text) : Json → Bool
  | .str s => s ∈ options
  | _ => false

def Json.hashable : Json → Bool
  | .arr _ | .obj _ => false
  | _ => true

/-- What the package raises; a `JSONDecodeError` or `UnicodeDecodeError` is a `ValueError`. -/
inductive JsonError where
  | valueError
  | recursionError
  deriving DecidableEq

/-- The longest integer text that `int` and `str` convert. -/
def maxDigits : ℕ := 4300

/-- The options of a `json.loads` call and the interpreter under it. -/
structure Reader where
  /-- Containers that can be open at once. -/
  depth : ℕ
  /-- `repr(float(literal))`. -/
  float : Text → Text
  /-- `parse_constant`, called on `NaN`, `Infinity` and `-Infinity`. -/
  constant : Text → Except JsonError Json
  /-- `object_pairs_hook`, else the building of a `dict`. -/
  pairs : List (Text × Json) → Except JsonError (List (Text × Json))

abbrev Scan (α : Type) := Text → Except JsonError (α × Text)

def isBlank (c : ℕ) : Bool := c = 32 || c = 9 || c = 10 || c = 13

def skipBlanks (input : Text) : Text := input.dropWhile isBlank

def hexValue (c : ℕ) : Option ℕ :=
  if isDigit c then some (c - 48)
  else if 97 ≤ c ∧ c ≤ 102 then some (c - 87)
  else if 65 ≤ c ∧ c ≤ 70 then some (c - 55)
  else none

/-- The character a backslash and one letter stand for. -/
def shortEscape (c : ℕ) : Option ℕ :=
  if c = 34 ∨ c = 92 ∨ c = 47 then some c
  else if c = 98 then some 8
  else if c = 102 then some 12
  else if c = 110 then some 10
  else if c = 114 then some 13
  else if c = 116 then some 9
  else none

/-- The characters of a string up to its closing quote, each with whether it was written `\u`. -/
def scanUnits : Scan (List (ℕ × Bool))
  | [] => throw .valueError
  | 34 :: rest => pure ([], rest)
  | 92 :: 117 :: a :: b :: c :: d :: rest =>
    match hexValue a, hexValue b, hexValue c, hexValue d with
    | some a, some b, some c, some d => do
      let (units, tail) ← scanUnits rest
      return ((a * 4096 + b * 256 + c * 16 + d, true) :: units, tail)
    | _, _, _, _ => throw .valueError
  | 92 :: e :: rest =>
    match shortEscape e with
    | some c => do
      let (units, tail) ← scanUnits rest
      return ((c, false) :: units, tail)
    | none => throw .valueError
  | c :: rest =>
    if c < 32 then throw .valueError
    else do
      let (units, tail) ← scanUnits rest
      return ((c, false) :: units, tail)

/-- Joins the surrogate pairs that were written as two escapes. -/
def joinUnits : List (ℕ × Bool) → Text
  | [] => []
  | [(c, _)] => [c]
  | (c, escaped) :: (d, escaped') :: units =>
    if escaped ∧ escaped' ∧ 0xD800 ≤ c ∧ c < 0xDC00 ∧ 0xDC00 ≤ d ∧ d < 0xE000 then
      (0x10000 + (c - 0xD800) * 1024 + (d - 0xDC00)) :: joinUnits units
    else c :: joinUnits ((d, escaped') :: units)

/-- A string after its opening quote. -/
def scanString : Scan Text := fun input => do
  let (units, rest) ← scanUnits input
  return (joinUnits units, rest)

/-- The fraction of a number, empty when there is none. -/
def scanFraction : Text → Text × Text
  | 46 :: rest =>
    let digits := rest.takeWhile isDigit
    if digits = [] then ([], 46 :: rest) else (46 :: digits, rest.dropWhile isDigit)
  | input => ([], input)

/-- The sign of an exponent. -/
def scanSign : Text → Text × Text
  | c :: rest => if c = 43 ∨ c = 45 then ([c], rest) else ([], c :: rest)
  | [] => ([], [])

/-- The exponent of a number, empty when there is none. -/
def scanExponent : Text → Text × Text
  | c :: rest =>
    let (sign, body) := scanSign rest
    let digits := body.takeWhile isDigit
    if (c = 101 ∨ c = 69) ∧ digits ≠ [] then (c :: sign ++ digits, body.dropWhile isDigit)
    else ([], c :: rest)
  | [] => ([], [])

/-- The integer part: one zero, or digits without a leading one. -/
def scanWhole : Text → Text × Text
  | 48 :: rest => ([48], rest)
  | input => (input.takeWhile isDigit, input.dropWhile isDigit)

/-- A number whose sign was read. -/
def scanUnsigned (read : Text → Text) (negative : Bool) : Scan Json := fun input =>
  let (whole, rest) := scanWhole input
  let (fraction, rest) := scanFraction rest
  let (exponent, rest) := scanExponent rest
  if whole = [] then throw .valueError
  else if fraction ≠ [] ∨ exponent ≠ [] then
    pure (.float (read ((if negative then [45] else []) ++ whole ++ fraction ++ exponent)), rest)
  else if whole.length > maxDigits then throw .valueError
  else pure (.int (if negative then -readDecimal whole else readDecimal whole), rest)

def scanNumber (read : Text → Text) : Scan Json
  | 45 :: rest => scanUnsigned read true rest
  | input => scanUnsigned read false input

/-- Elements up to `close`, behind the opening bracket or a comma and with blanks skipped.
The bound is on their number. -/
def scanElements {α : Type} (close : ℕ) (element : Scan α) : ℕ → Scan (List α)
  | 0, _ => throw .valueError
  | n + 1, input => do
    let (x, rest) ← element input
    match skipBlanks rest with
    | c :: rest =>
      if c = close then return ([x], rest)
      else if c = 44 then do
        let (xs, rest) ← scanElements close element n (skipBlanks rest)
        return (x :: xs, rest)
      else throw .valueError
    | [] => throw .valueError

/-- A container behind its opening bracket. Each element takes a character, so that the length of
the input bounds their number. -/
def scanContainer {α : Type} (close : ℕ) (element : Scan α) : Scan (List α) := fun input =>
  match skipBlanks input with
  | c :: rest =>
    if c = close then pure ([], rest) else scanElements close element (c :: rest).length (c :: rest)
  | [] => throw .valueError

/-- A member of an object. -/
def scanMember (value : Scan Json) : Scan (Text × Json)
  | 34 :: rest => do
    let (key, rest) ← scanString rest
    match skipBlanks rest with
    | 58 :: rest => do
      let (v, rest) ← value (skipBlanks rest)
      return ((key, v), rest)
    | _ => throw .valueError
  | _ => throw .valueError

/-- The words of the grammar; the last three are no JSON but read all the same. -/
def constants : List Text := [text "NaN", text "Infinity", text "-Infinity"]

def scanWord (r : Reader) : Scan Json := fun input =>
  if text "null" <+: input then pure (.null, input.drop 4)
  else if text "true" <+: input then pure (.bool true, input.drop 4)
  else if text "false" <+: input then pure (.bool false, input.drop 5)
  else match constants.find? fun word => word <+: input with
    | some word => do
      let value ← r.constant word
      return (value, input.drop word.length)
    | none => scanNumber r.float input

/-- `scan_once`, with room for `depth` containers inside each other. -/
def scanOnce (r : Reader) : ℕ → Scan Json
  | _, 34 :: rest => do
    let (s, rest) ← scanString rest
    return (.str s, rest)
  | 0, c :: rest =>
    if c = 91 ∨ c = 123 then throw .recursionError else scanWord r (c :: rest)
  | depth + 1, c :: rest =>
    if c = 91 then do
      let (items, rest) ← scanContainer 93 (scanOnce r depth) rest
      return (.arr items, rest)
    else if c = 123 then do
      let (pairs, rest) ← scanContainer 125 (scanMember (scanOnce r depth)) rest
      let members ← r.pairs pairs
      return (.obj members, rest)
    else scanWord r (c :: rest)
  | _, [] => throw .valueError

/-- `json.loads` of a string. -/
def Reader.loads (r : Reader) (input : Text) : Except JsonError Json :=
  if input.head? = some 0xFEFF then throw .valueError
  else do
    let (value, rest) ← scanOnce r r.depth (skipBlanks input)
    if skipBlanks rest = [] then return value else throw .valueError

/-- One code unit of `size` bytes. -/
def takeUnit (big : Bool) (size : ℕ) (raw : Bytes) : Option (ℕ × Bytes) :=
  if raw.length < size then none
  else
    let unit := raw.take size
    let low := (if big then unit.reverse else unit).map UInt8.toNat
    some (Nat.ofDigits 256 low, raw.drop size)

/-- A code point of UTF-16, with lone surrogates let through. -/
def takeUtf16 (big : Bool) (raw : Bytes) : Option (ℕ × Bytes) := do
  let (c, rest) ← takeUnit big 2 raw
  match takeUnit big 2 rest with
  | some (d, after) =>
    if 0xD800 ≤ c ∧ c < 0xDC00 ∧ 0xDC00 ≤ d ∧ d < 0xE000 then
      some (0x10000 + (c - 0xD800) * 1024 + (d - 0xDC00), after)
    else some (c, rest)
  | none => some (c, rest)

/-- A code point of UTF-32, with lone surrogates let through. -/
def takeUtf32 (big : Bool) (raw : Bytes) : Option (ℕ × Bytes) := do
  let (c, rest) ← takeUnit big 4 raw
  if c < 0x110000 then some (c, rest) else none

/-- `b.decode(detect_encoding(b), 'surrogatepass')`; the encodings without an order read the mark
in front and drop it. -/
def decodeDetected (raw : Bytes) : Option Text :=
  let points take (raw : Bytes) := decodePoints take raw.length raw
  if [0, 0, 0xFE, 0xFF] <+: raw then points (takeUtf32 true) (raw.drop 4)
  else if [0xFF, 0xFE, 0, 0] <+: raw then points (takeUtf32 false) (raw.drop 4)
  else if [0xFE, 0xFF] <+: raw then points (takeUtf16 true) (raw.drop 2)
  else if [0xFF, 0xFE] <+: raw then points (takeUtf16 false) (raw.drop 2)
  else if [0xEF, 0xBB, 0xBF] <+: raw then decodeUtf8 true (raw.drop 3)
  else match raw with
    | a :: b :: c :: d :: _ =>
      if a = 0 then points (if b = 0 then takeUtf32 true else takeUtf16 true) raw
      else if b = 0 then points (if c = 0 ∧ d = 0 then takeUtf32 false else takeUtf16 false) raw
      else decodeUtf8 true raw
    | [a, b] =>
      if a = 0 then points (takeUtf16 true) raw
      else if b = 0 then points (takeUtf16 false) raw
      else decodeUtf8 true raw
    | _ => decodeUtf8 true raw

/-- `json.loads` of bytes. -/
def Reader.loadsBytes (r : Reader) (raw : Bytes) : Except JsonError Json :=
  match decodeDetected raw with
  | some input => r.loads input
  | none => throw .valueError

/-- A `dict` keeps the place of a key's first pair and the value of its last. -/
def dictPairs (pairs : List (Text × Json)) : List (Text × Json) :=
  pairs.foldl (fun members (key, value) =>
    if members.any fun m => m.1 = key then
      members.map fun m => if m.1 = key then (key, value) else m
    else members ++ [(key, value)]) []

/-- An `object_pairs_hook` that raises a `ValueError` on a second pair of one key. -/
def uniquePairs (pairs : List (Text × Json)) : Except JsonError (List (Text × Json)) :=
  if (pairs.map Prod.fst).Nodup then pure pairs else throw .valueError

/-- `json.loads` without options. -/
def Reader.standard (depth : ℕ) (float : Text → Text) : Reader where
  depth := depth
  float := float
  constant word := pure (.float (if word = text "NaN" then text "nan"
    else if word = text "Infinity" then text "inf" else text "-inf"))
  pairs pairs := pure (dictPairs pairs)

/-- The options of a `json.dumps` call and the interpreter under it. -/
structure Writer where
  /-- Containers that can be open at once. -/
  depth : ℕ
  /-- `ensure_ascii`. -/
  ascii : Bool
  /-- `sort_keys`. -/
  sorted : Bool
  /-- `allow_nan`. -/
  nan : Bool
  /-- `separators`, between elements and behind a key. -/
  comma : Text
  colon : Text

def hexDigit (n : ℕ) : ℕ := if n < 10 then 48 + n else 87 + n

/-- `\u` and four digits. -/
def escapeUnit (n : ℕ) : Text :=
  [92, 117, hexDigit (n / 4096 % 16), hexDigit (n / 256 % 16), hexDigit (n / 16 % 16), hexDigit (n % 16)]

/-- One character of a string. -/
def escapeChar (ascii : Bool) (c : ℕ) : Text :=
  if c = 34 ∨ c = 92 then [92, c]
  else if c = 10 then [92, 110]
  else if c = 13 then [92, 114]
  else if c = 9 then [92, 116]
  else if c = 12 then [92, 102]
  else if c = 8 then [92, 98]
  else if c < 32 then escapeUnit c
  else if ¬ ascii ∨ c < 127 then [c]
  else if c < 0x10000 then escapeUnit c
  else escapeUnit (0xD800 + (c - 0x10000) / 1024) ++ escapeUnit (0xDC00 + (c - 0x10000) % 1024)

def quote (ascii : Bool) (s : Text) : Text := 34 :: s.flatMap (escapeChar ascii) ++ [34]

/-- `int.__repr__`. -/
def printInt (n : ℤ) : Except JsonError Text :=
  let digits := decimal n.natAbs
  if digits.length > maxDigits then throw .valueError
  else pure (if n < 0 then 45 :: digits else digits)

/-- The floats that are no numbers, and how `allow_nan` writes them. -/
def nonFinite : List (Text × Text) :=
  [(text "nan", text "NaN"), (text "inf", text "Infinity"), (text "-inf", text "-Infinity")]

def printFloat (nan : Bool) (repr : Text) : Except JsonError Text :=
  match nonFinite.lookup repr with
  | some word => if nan then pure word else throw .valueError
  | none => pure repr

/-- The members in the order of their keys. -/
def sortMembers (members : List (Text × Json)) : List (Text × Json) :=
  members.insertionSort fun a b => a.1 ≤ b.1

/-- The value, with room for `depth` containers inside each other. -/
def Writer.print (w : Writer) : ℕ → Json → Except JsonError Text
  | _, .null => pure (text "null")
  | _, .bool b => pure (if b then text "true" else text "false")
  | _, .int n => printInt n
  | _, .float repr => printFloat w.nan repr
  | _, .str s => pure (quote w.ascii s)
  | 0, .arr _ => throw .recursionError
  | 0, .obj _ => throw .recursionError
  | depth + 1, .arr items => do
    let parts ← items.mapM (w.print depth)
    return 91 :: w.comma.intercalate parts ++ [93]
  | depth + 1, .obj members => do
    let parts ← (if w.sorted then sortMembers members else members).mapM fun m => do
      let value ← w.print depth m.2
      return quote w.ascii m.1 ++ w.colon ++ value
    return 123 :: w.comma.intercalate parts ++ [125]

/-- `json.dumps`. -/
def Writer.dumps (w : Writer) (value : Json) : Except JsonError Text := w.print w.depth value

/-- `json.dumps(value).encode()`. -/
def Writer.dumpsBytes (w : Writer) (value : Json) : Except JsonError Bytes := do
  let printed ← w.dumps value
  match encodeUtf8 printed with
  | some raw => return raw
  | none => throw .valueError

end Python
