import AzdSanta.Python.Json

/-! Python's operations on what `json.loads` returns; `none` is a `TypeError`, `KeyError` or
`AttributeError`. -/
namespace Python

/-- `v[key]`. -/
def Json.item (v : Json) (key : String) : Option Json :=
  match v with
  | .obj members => members.lookup (text key)
  | _ => none

/-- `v.get(key)`, where `None` is `null`. -/
def Json.get (v : Json) (key : String) : Option Json :=
  match v with
  | .obj members => some ((members.lookup (text key)).getD .null)
  | _ => none

/-- `v.get(key, default)`. -/
def Json.getD (v : Json) (key : String) (default : Json) : Option Json :=
  match v with
  | .obj members => some ((members.lookup (text key)).getD default)
  | _ => none

/-- `bool(v)`. -/
def Json.truthy : Json → Bool
  | .null => false
  | .bool b => b
  | .int n => n ≠ 0
  | .float repr => repr ≠ text "0.0" && repr ≠ text "-0.0"
  | .str s => s ≠ []
  | .arr items => !items.isEmpty
  | .obj members => !members.isEmpty

/-- `v or default`. -/
def Json.or (v default : Json) : Json := if v.truthy then v else default

/-- The integer that a number is equal to; a float is looked at as far as it has no exponent. -/
def Json.whole : Json → Option ℤ
  | .bool b => some (if b then 1 else 0)
  | .int n => some n
  | .float repr =>
    let digits := if repr.head? = some 45 then repr.drop 1 else repr
    let size := digits.length - 2
    if digits.drop size = text ".0" ∧ (digits.take size).all isDigit then
      some (if repr.head? = some 45 then -readDecimal (digits.take size) else readDecimal (digits.take size))
    else none
  | _ => none

/-- `v == v'`, for values of at most `depth` containers inside each other. -/
def Json.same : ℕ → Json → Json → Bool
  | _, .null, .null => true
  | _, .str s, .str t => s = t
  | depth + 1, .arr xs, .arr ys =>
    xs.length = ys.length && (xs.zip ys).all fun p => p.1.same depth p.2
  | depth + 1, .obj ms, .obj ns =>
    ms.length = ns.length && ms.all fun m => (ns.lookup m.1).any fun v => m.2.same depth v
  | _, .float r, .float r' => r ≠ text "nan" && (r = r' || ((Json.float r).whole.isSome &&
      (Json.float r).whole = (Json.float r').whole))
  | _, v, v' => v.whole.isSome && v.whole = v'.whole

/-- The elements of `for x in v`. -/
def Json.elements : Json → Option (List Json)
  | .arr items => some items
  | .obj members => some (members.map fun m => .str m.1)
  | .str s => some (s.map fun c => .str [c])
  | _ => none

/-- `v.items()`. -/
def Json.items : Json → Option (List (Text × Json))
  | .obj members => some members
  | _ => none

/-- `v > 0`. -/
def Json.positive : Json → Option Bool
  | .bool b => some b
  | .int n => some (0 < n)
  | .float repr => some (repr.head? ≠ some 45 && repr ≠ text "0.0" && repr ≠ text "nan")
  | _ => none

/-- The spaces of `str.split` and `str.strip`. -/
def isSpace (c : ℕ) : Bool :=
  (9 ≤ c && c ≤ 13) || (28 ≤ c && c ≤ 32) || c = 133 || c = 160 || c = 5760 || (8192 ≤ c && c ≤ 8202) ||
    c = 8232 || c = 8233 || c = 8239 || c = 8287 || c = 12288

/-- `s.split()`. -/
def splitWords (s : Text) : List Text := (s.splitOnP isSpace).filter (· ≠ [])

/-- `s.split('=', 1)`, where it has two parts. -/
def splitEquals (s : Text) : Option (Text × Text) :=
  if 61 ∈ s then some (s.takeWhile (· ≠ 61), (s.dropWhile (· ≠ 61)).drop 1) else none

end Python
