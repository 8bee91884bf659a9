import AzdSanta.Common.Checks
import AzdSanta.Python.Json

/-! Snapshots of the synthetic sync experiment and their validation. -/
namespace Sync
open Checks Python

/-- A Python argument, as far as the checks tell values apart. -/
inductive PyValue where
  | int (n : ℤ)
  | bool (b : Bool)
  | str (s : Text)
  | bytes (b : Bytes)
  | other (truthy : Bool)
  deriving DecidableEq

def PyValue.truthy : PyValue → Bool
  | .int n => n ≠ 0
  | .bool b => b
  | .str s => s ≠ []
  | .bytes b => b ≠ []
  | .other b => b

/-- The exceptions that leave a call; a `KeyError` or `IndexError` is a `LookupError`. -/
inductive Failure where
  | valueError (message : String)
  | typeError
  | lookupError
  | recursionError
  | overflowError
  | integrityError
  | operationalError
  deriving DecidableEq

structure Codec where
  loads : PyValue → Except Failure Json
  /-- `canonical`: fails on values JSON does not have. -/
  canonical : Json → Except Failure Bytes
  /-- The hex digest. -/
  sha256 : Bytes → Text

def ofJson {α : Type} : Except JsonError α → Except Failure α
  | .ok a => .ok a
  | .error .valueError => .error (.valueError "")
  | .error .recursionError => .error .recursionError

/-- The options of `canonical`; the interpreter has room for `depth` containers. -/
def canonicalWriter (depth : ℕ) : Writer where
  depth := depth
  ascii := true
  sorted := true
  nan := false
  comma := [44]
  colon := [58]

/-- The `json` package, on an interpreter with room for `depth` containers that reads a float
literal as `float`. -/
def Codec.python (depth : ℕ) (float : Text → Text) (sha256 : Bytes → Text) : Codec where
  loads
    | .bytes raw => ofJson ((Reader.standard depth float).loadsBytes raw)
    | .str s => ofJson ((Reader.standard depth float).loads s)
    | _ => .error .typeError
  canonical value := ofJson ((canonicalWriter depth).dumpsBytes value)
  sha256 := sha256

def fixtureFields : List Text := [text "identifier", text "policy", text "rule_type"]

/-- The checks of `Snapshot.fixture` on one rule. -/
def checkRule : Json → Except Failure Unit
  | .obj members => do
    let keys := members.map Prod.fst
    if ¬ ((∀ key ∈ keys, key ∈ fixtureFields) ∧ ∀ field ∈ fixtureFields, field ∈ keys) then
      throw (.valueError "only fixture rule subset supported")
    let ruleType := (members.lookup (text "rule_type")).getD .null
    let policy := (members.lookup (text "policy")).getD .null
    if ¬ ruleType.isOneOf [text "BINARY", text "SIGNINGID"] ∨
        ¬ policy.isOneOf [text "BLOCKLIST", text "ALLOWLIST"] then
      throw (.valueError "unsupported fixture rule")
  | .arr items =>
    -- A list of the three field names passes the set comparison and fails at the first lookup.
    if ¬ items.all Json.hashable then throw .typeError
    else if items.all (Json.isOneOf fixtureFields) ∧
        fixtureFields.all fun field => items.any (Json.isOneOf [field]) then throw .typeError
    else throw (.valueError "only fixture rule subset supported")
  | .str _ => throw (.valueError "only fixture rule subset supported")
  | _ => throw .typeError

/-- A `Snapshot` instance, also one that `fixture` would not build. -/
structure Snapshot where
  revision : PyValue
  /-- `none` when the value cannot be iterated. -/
  rules : Option (List PyValue)
  approval : PyValue

/-- What `Snapshot.fixture` returns. -/
structure Fixture where
  revision : ℤ
  rules : List Bytes
  approval : PyValue

/-- `Snapshot.fixture`. -/
def fixture (codec : Codec) (revision : PyValue) (rules : List Json) (approval : PyValue) :
    Except Failure Fixture :=
  match revision with
  | .int n => do
    if n < 1 ∨ rules.length > 100 ∨ ¬ approval.truthy then throw (.valueError "invalid fixture")
    rules.forM checkRule
    let encoded ← rules.mapM codec.canonical
    return ⟨n, encoded, approval⟩
  | _ => throw (.valueError "invalid fixture")

end Sync
