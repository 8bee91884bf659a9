import AzdSanta.Common.Checks
import AzdSanta.Redis.Script

/-! The private security store: its keys, its instance marker and the guard that
every script runs first. -/
namespace SecurityStore
open Redis

/-- The keys under the security cache prefix, one constructor per key family. -/
inductive Key where
  | marker
  | admissionState
  | syncGlobal
  | syncSource (mac : Bytes)
  | syncCredential (mac : Bytes)
  | challengeUsed (digest : Bytes)
  | totpUsed (material : Bytes) (step : ℤ)
  | verify (user : Bytes)
  | password (digest : Bytes)
  deriving DecidableEq

def Key.label : Key → String
  | .marker => "security-store-instance-v1"
  | .admissionState => "santa-admission-v1"
  | .syncGlobal => "sync-global"
  | .syncSource _ => "sync-source:"
  | .syncCredential _ => "sync-credential:"
  | .challengeUsed _ => "challenge-used:"
  | .totpUsed _ _ => "totp-used:"
  | .verify _ => "verify:"
  | .password _ => "password:"

def Key.argument : Key → Bytes
  | .marker | .admissionState | .syncGlobal => []
  | .syncSource mac | .syncCredential mac => mac
  | .challengeUsed digest | .password digest => digest
  | .totpUsed material step => material ++ ':' :: Lua.integerText step
  | .verify user => user

/-- The text handed to `cache.make_key`. -/
def Key.text (k : Key) : Bytes := k.label.toList ++ k.argument

/-- A text whose tail holds no colon determines where its last colon stands. -/
private theorem append_colon_injective {a b c d : Bytes} (hb : ':' ∉ b) (hd : ':' ∉ d)
    (h : a ++ ':' :: b = c ++ ':' :: d) : a = c ∧ b = d := by
  induction a generalizing c with
  | nil =>
    cases c with
    | nil => simpa using h
    | cons x c =>
      simp only [List.nil_append, List.cons_append, List.cons.injEq] at h
      exact absurd (by simp [h.2]) hb
  | cons x a ih =>
    cases c with
    | nil =>
      simp only [List.nil_append, List.cons_append, List.cons.injEq] at h
      exact absurd (by simp [← h.2]) hd
    | cons y c =>
      simp only [List.cons_append, List.cons.injEq] at h
      obtain ⟨hac, hbd⟩ := ih h.2
      exact ⟨by rw [h.1, hac], hbd⟩

private theorem colon_notMem_integerText (n : ℤ) : ':' ∉ Lua.integerText n := by
  have hdigits (m : ℕ) : ':' ∉ Nat.toDigits 10 m := fun h =>
    absurd ((Lua.matchAll_iff.mp (Lua.matchAll_toDigits m)).2 ':' h) (by decide)
  cases n with
  | ofNat m => exact hdigits m
  | negSucc m => simpa [Lua.integerText] using hdigits (m + 1)

/-- The sixth character of the text tells the key families apart. -/
private def Key.mark : Key → Char
  | .marker => 'i'
  | .admissionState => '-'
  | .syncGlobal => 'g'
  | .syncSource _ => 's'
  | .syncCredential _ => 'c'
  | .challengeUsed _ => 'e'
  | .totpUsed _ _ => 'u'
  | .verify _ => 'y'
  | .password _ => 'o'

private theorem Key.text_mark (k : Key) : k.text[5]? = some k.mark := by
  cases k <;> simp [Key.text, Key.label, Key.mark]

/-- Distinct constructors never share a key text, so keys may be compared by constructor. -/
theorem Key.text_injective : Function.Injective Key.text := by
  intro a b h
  have hm : a.mark = b.mark := by
    rw [← Option.some_inj, ← a.text_mark, h, b.text_mark]
  have hl : a.label = b.label := by
    cases a <;> cases b <;> first | rfl | simp [Key.mark] at hm
  rw [Key.text, Key.text, hl] at h
  have ha := List.append_cancel_left h
  clear h hl
  cases a <;> cases b <;> first | rfl | (simp [Key.mark] at hm; done) | simp only [Key.argument] at ha
  case totpUsed.totpUsed m i m' j =>
    obtain ⟨rfl, hi⟩ := append_colon_injective (colon_notMem_integerText i)
      (colon_notMem_integerText j) ha
    rw [Lua.integerText_injective hi]
  all_goals rw [ha]

def unavailable : Error := .reply "SECURITY_STORE_UNAVAILABLE"

/-- `string.match(marker, '^([0-9a-f]+):(%d+)$')`; the identity holds no colon. -/
def parseMarker (marker : Bytes) : Option (Bytes × ℕ) :=
  match marker.dropWhile (· ≠ ':') with
  | ':' :: ready =>
    let id := marker.takeWhile (· ≠ ':')
    if Lua.matchAll Lua.hex id then (Lua.tonumber ready).map fun n => (id, n) else none
  | _ => none

/-- `STORE_GUARD`. -/
def storeGuard (storeId : Bytes) (s : Store Key) : Except Error Unit := do
  match ← s.get .marker with
  | none => throw unavailable
  | some marker =>
    match parseMarker marker with
    | none => throw unavailable
    | some (id, ready) => if id ≠ storeId ∨ ready > s.seconds then throw unavailable

theorem storeGuard_error {storeId : Bytes} {s : Store Key} {e : Error}
    (h : storeGuard storeId s = .error e) : e = unavailable ∨ e = .wrongType := by
  unfold storeGuard at h
  rcases hget : s.get .marker with e' | marker
  · rw [hget] at h
    obtain rfl := Except.error.inj h
    right
    unfold Store.get at hget
    split at hget <;> simp_all
  · rw [hget] at h
    simp only [Checks.ok_bind, Checks.throw_eq_error, Checks.pure_eq_ok] at h
    left
    split at h
    · exact (Except.error.inj h).symm
    · split at h
      · exact (Except.error.inj h).symm
      · split_ifs at h
        exact (Except.error.inj h).symm

/-- The guard passes exactly on a ready marker of the expected identity. -/
theorem storeGuard_eq_ok {storeId : Bytes} {s : Store Key} :
    storeGuard storeId s = .ok () ↔ ∃ marker ready, s.get .marker = .ok (some marker) ∧
      parseMarker marker = some (storeId, ready) ∧ ready ≤ s.seconds := by
  unfold storeGuard
  constructor
  · intro h
    obtain ⟨marker, hget, h⟩ := Checks.bind_eq_ok.mp h
    rcases marker with _ | marker
    · cases h
    simp only at h
    rcases hp : parseMarker marker with _ | ⟨id, ready⟩ <;> rw [hp] at h
    · cases h
    simp only [Checks.throw_eq_error, Checks.pure_eq_ok] at h
    obtain ⟨hpass, -⟩ := Checks.check_eq_ok.mp h
    push Not at hpass
    exact ⟨marker, ready, hget, by rw [hp, hpass.1], hpass.2⟩
  · rintro ⟨marker, ready, hget, hp, hready⟩
    have hpass : ¬ (storeId ≠ storeId ∨ ready > s.seconds) := by
      push Not
      exact ⟨rfl, hready⟩
    simp only [hget, Checks.ok_bind, hp, if_neg hpass, Checks.pure_eq_ok]

/-- `_store_operation`: the guard and the mutation share one Redis operation. -/
def storeOperation {α : Type} (storeId : Bytes) (script : Script Key α) : Script Key α := do
  Script.query (storeGuard storeId)
  script

/-- The guard refuses without writing, or the script runs. -/
theorem storeOperation_run {α : Type} (storeId : Bytes) (script : Script Key α) (s : Store Key) :
    (∃ e, storeGuard storeId s = .error e ∧ (storeOperation storeId script).run s = (.error e, s)) ∨
    (storeGuard storeId s = .ok () ∧ (storeOperation storeId script).run s = script.run s) := by
  rcases hg : storeGuard storeId s with e | ⟨⟩
  · exact Or.inl ⟨e, rfl, by simp [storeOperation, hg]⟩
  · exact Or.inr ⟨rfl, by simp [storeOperation, hg]⟩

def markerText (storeId : Bytes) (ready : ℕ) : Bytes := storeId ++ ':' :: Lua.tostring ready

end SecurityStore
