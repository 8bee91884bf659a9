import AzdSanta.Admission.Scripts
import AzdSanta.Operator.Policy
import AzdSanta.Redis.Claims

/-! The operations of the operator policy on the security store. -/
namespace Operator
open Redis SecurityStore

/-- `check_security_store`. -/
def checkSecurityStore (storeId : Bytes) : Script Key Unit := storeOperation storeId (pure ())

/-- `_cache_add`. -/
def cacheAdd (storeId : Bytes) (key : Key) (seconds : ℕ) : Script Key Bool :=
  storeOperation storeId (Script.setNxEx key "1".toList seconds)

/-- The script of `_budget`. -/
def budgetScript (key : Key) (seconds maximum : ℕ) : Script Key ℤ := do
  match ← Script.query fun s => s.get key with
  | none =>
    Script.setEx key "1".toList seconds
    return 1
  | some count =>
    match Lua.tonumber count with
    | none => Script.fail unavailable
    | some n =>
      if n < 1 then Script.fail unavailable
      else if n ≥ maximum then return maximum + 1
      else Script.incr key

/-- `_budget` with its default window. -/
def budget (storeId : Bytes) (key : Key) (maximum : ℕ) : Script Key Bool := do
  let count ← storeOperation storeId (budgetScript key challengeSeconds maximum)
  return decide (count ≤ maximum)

def migrationDelay : ℕ := challengeSeconds + 60

/-- The script of `initialize_security_store('migrate')`. -/
def migrateScript (storeId : Bytes) : Script Key ℕ := do
  if ← Script.query fun s => .ok (s.exist .marker) then return 0
  else
  let ready := (← Script.query fun s => .ok s.seconds) + migrationDelay
  Script.set .marker (markerText storeId ready)
  return 1

/-- `initialize_security_store`; the result is the exception text, if any. -/
def initializeSecurityStore (site : Admission.Site) (mode : String)
    (confirmQuiesced authorityEmpty : Bool) (generation : Bytes) :
    Script Key (Except String Unit) := do
  let present := "Security-store marker already exists; inspect configuration and state instead of reinitializing"
  if mode = "fresh" then
    if ¬ authorityEmpty then
      return .error
        "Fresh initialization requires a new database without accounts or enrollment credentials"
    else
    match ← Admission.initializeFresh site 0 generation with
    | .number 1 => return .ok ()
    | _ => return .error present
  else if mode ≠ "migrate" ∨ ¬ confirmQuiesced then
    return .error "Migration requires explicit quiescence confirmation"
  else
  match ← migrateScript site.storeId with
  | 1 => return .ok ()
  | _ => return .error present

end Operator
