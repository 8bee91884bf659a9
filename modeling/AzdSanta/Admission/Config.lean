import AzdSanta.Common.Checks
import AzdSanta.Redis.Lua

/-! Admission limits and proxy trust, read once from the process environment. -/
namespace Admission
open Redis Checks

inductive Mode where
  | direct
  | proxy
  deriving DecidableEq, Repr

structure Config where
  window : ℕ := 60
  globalMax : ℕ := 120
  sourceMax : ℕ := 60
  credentialMax : ℕ := 30
  capacity : ℕ := 1
  mode : Mode := .direct
  peers : List String := []
  deriving DecidableEq

abbrev Environ := String → Option String

/-- One limit: `[0-9]{1,4}` between 1 and its ceiling, or its default. -/
def configuredLimit (environ : Environ) (key : String) (default ceiling : ℕ) : Except String ℕ :=
  let raw := ((environ ("AZD_SANTA_ADMISSION_" ++ key)).getD (toString default)).toList
  let value := Nat.ofDigitChars 10 raw 0
  if ¬ (raw.all Char.isDigit ∧ 1 ≤ raw.length ∧ raw.length ≤ 4) ∨
      ¬ (1 ≤ value ∧ value ≤ ceiling) then
    throw "Invalid Santa admission limit"
  else pure value

def configuredMode (environ : Environ) : Option Mode :=
  match (environ "AZD_SANTA_ADMISSION_MODE").getD "direct" with
  | "direct" => some .direct
  | "proxy" => some .proxy
  | _ => none

def configuredPeers (environ : Environ) : List String :=
  match environ "AZD_SANTA_ADMISSION_PEERS" with
  | none | some "" => []
  | some text => text.splitOn ","

/-- `ip_network(peer, strict=True)` is `network`: the prefix length, or its error text. -/
def configured (network : String → Except String ℕ) (environ : Environ) : Except String Config := do
  let window ← configuredLimit environ "WINDOW" 60 300
  let globalMax ← configuredLimit environ "GLOBAL_MAX" 120 1200
  let sourceMax ← configuredLimit environ "SOURCE_MAX" 60 1200
  let credentialMax ← configuredLimit environ "CREDENTIAL_MAX" 30 1200
  let peers := configuredPeers environ
  match configuredMode environ with
  | none => throw "Explicit Santa proxy trust required"
  | some mode =>
    if (mode = .direct ∧ peers ≠ []) ∨ (mode = .proxy ∧ peers = []) then
      throw "Explicit Santa proxy trust required"
    if peers.length > 8 then throw "Too many trusted proxy peers"
    peers.forM fun peer => do
      if (← network peer) = 0 then throw "Unbounded proxy trust"
    return { window, globalMax, sourceMax, credentialMax, mode, peers }

/-- What the scripts rely on: small positive limits and single-digit slots. -/
structure Config.Bounded (c : Config) : Prop where
  window : 1 ≤ c.window
  globalMax : 1 ≤ c.globalMax ∧ c.globalMax ≤ 1200
  sourceMax : 1 ≤ c.sourceMax ∧ c.sourceMax ≤ 1200
  credentialMax : 1 ≤ c.credentialMax ∧ c.credentialMax ≤ 1200
  capacity : c.capacity = 1

theorem configuredLimit_bounds {environ : Environ} {key : String} {default ceiling n : ℕ}
    (h : configuredLimit environ key default ceiling = .ok n) : 1 ≤ n ∧ n ≤ ceiling := by
  simp only [configuredLimit] at h
  split_ifs at h with hc
  obtain rfl := Except.ok.inj h
  exact not_not.mp (not_or.mp hc).2

theorem configured_bounded {network : String → Except String ℕ} {environ : Environ} {c : Config}
    (h : configured network environ = .ok c) : c.Bounded := by
  simp only [configured, bind_eq_ok] at h
  obtain ⟨window, hw, globalMax, hg, sourceMax, hs, credentialMax, hc, h⟩ := h
  have hlimits (mode : Mode) (peers : List String) : Config.Bounded
      { window, globalMax, sourceMax, credentialMax, mode, peers } :=
    ⟨(configuredLimit_bounds hw).1, configuredLimit_bounds hg, configuredLimit_bounds hs,
      configuredLimit_bounds hc, rfl⟩
  split at h
  · cases h
  · simp only [throw_eq_error, error_bind, check_eq_ok, bind_eq_ok] at h
    obtain ⟨-, -, _, -, h⟩ := h
    obtain rfl := Except.ok.inj h
    exact hlimits _ _

end Admission
