import AzdSanta.Python.Text

/-! The `base64` package: encoding with padding, strict decoding. -/
namespace Python

/-- The character of six bits; `url` is the alphabet of `urlsafe_b64encode`. -/
def sextetChar (url : Bool) (n : ℕ) : ℕ :=
  if n < 26 then 65 + n
  else if n < 52 then 71 + n
  else if n < 62 then n - 4
  else if n = 62 then (if url then 45 else 43)
  else (if url then 95 else 47)

/-- The six bits of a character. With `altchars=b'-_'` the two characters they stand for are read
as well. -/
def sextet (url : Bool) (c : ℕ) : Option ℕ :=
  if 65 ≤ c ∧ c ≤ 90 then some (c - 65)
  else if 97 ≤ c ∧ c ≤ 122 then some (c - 71)
  else if 48 ≤ c ∧ c ≤ 57 then some (c + 4)
  else if c = 43 ∨ (url ∧ c = 45) then some 62
  else if c = 47 ∨ (url ∧ c = 95) then some 63
  else none

/-- `b64encode`, or `urlsafe_b64encode`, as text. -/
def b64encode (url : Bool) : Bytes → Text
  | [] => []
  | [a] => [sextetChar url (a.toNat / 4), sextetChar url (a.toNat % 4 * 16), 61, 61]
  | [a, b] => [sextetChar url (a.toNat / 4), sextetChar url (a.toNat % 4 * 16 + b.toNat / 16),
      sextetChar url (b.toNat % 16 * 4), 61]
  | a :: b :: c :: rest =>
    sextetChar url (a.toNat / 4) :: sextetChar url (a.toNat % 4 * 16 + b.toNat / 16) ::
      sextetChar url (b.toNat % 16 * 4 + c.toNat / 64) :: sextetChar url (c.toNat % 64) ::
      b64encode url rest

/-- `b64decode(s, validate=True)`; `none` is a `ValueError`. Bits left over in a padded quad are
not looked at. -/
def b64decode (url : Bool) : Text → Option Bytes
  | [] => some []
  | [a, b, 61, 61] => do
    let a ← sextet url a
    let b ← sextet url b
    return [.ofNat (a * 4 + b / 16)]
  | [a, b, c, 61] => do
    let a ← sextet url a
    let b ← sextet url b
    let c ← sextet url c
    return [.ofNat (a * 4 + b / 16), .ofNat (b % 16 * 16 + c / 4)]
  | a :: b :: c :: d :: rest => do
    let a ← sextet url a
    let b ← sextet url b
    let c ← sextet url c
    let d ← sextet url d
    let tail ← b64decode url rest
    return .ofNat (a * 4 + b / 16) :: .ofNat (b % 16 * 16 + c / 4) :: .ofNat (c % 4 * 64 + d) :: tail
  | _ => none

theorem sextet_sextetChar (url : Bool) {n : ℕ} (hn : n < 64) :
    sextet url (sextetChar url n) = some n := by
  cases url <;> interval_cases n <;> rfl

theorem sextetChar_ne_pad (url : Bool) {n : ℕ} (hn : n < 64) : sextetChar url n ≠ 61 := by
  intro h
  have hread := sextet_sextetChar url hn
  rw [h] at hread
  revert hread
  cases url <;> simp [sextet]

/-- The bytes of a full quad. -/
theorem quad_bytes (a b c : UInt8) :
    UInt8.ofNat (a.toNat / 4 * 4 + (a.toNat % 4 * 16 + b.toNat / 16) / 16) = a ∧
    UInt8.ofNat ((a.toNat % 4 * 16 + b.toNat / 16) % 16 * 16 + (b.toNat % 16 * 4 + c.toNat / 64) / 4) = b ∧
    UInt8.ofNat ((b.toNat % 16 * 4 + c.toNat / 64) % 4 * 64 + c.toNat % 64) = c := by
  have ha := a.toNat_lt
  have hb := b.toNat_lt
  have hc := c.toNat_lt
  have h1 : a.toNat / 4 * 4 + (a.toNat % 4 * 16 + b.toNat / 16) / 16 = a.toNat := by omega
  have h2 : (a.toNat % 4 * 16 + b.toNat / 16) % 16 * 16 + (b.toNat % 16 * 4 + c.toNat / 64) / 4 =
      b.toNat := by omega
  have h3 : (b.toNat % 16 * 4 + c.toNat / 64) % 4 * 64 + c.toNat % 64 = c.toNat := by omega
  rw [h1, h2, h3]
  exact ⟨UInt8.ofNat_toNat, UInt8.ofNat_toNat, UInt8.ofNat_toNat⟩

/-- Strict decoding inverts encoding. -/
theorem b64decode_b64encode (url : Bool) (raw : Bytes) : b64decode url (b64encode url raw) = some raw := by
  induction raw using b64encode.induct with
  | case1 => rfl
  | case2 a =>
    have ha := a.toNat_lt
    have h1 := sextet_sextetChar url (show a.toNat / 4 < 64 by omega)
    have h2 := sextet_sextetChar url (show a.toNat % 4 * 16 < 64 by omega)
    have hbyte : a.toNat / 4 * 4 + a.toNat % 4 * 16 / 16 = a.toNat := by omega
    rw [b64encode, b64decode, h1, h2]
    simp only [Option.bind_eq_bind, Option.bind_some, hbyte, UInt8.ofNat_toNat]
    rfl
  | case3 a b =>
    have ha := a.toNat_lt
    have hb := b.toNat_lt
    have h1 := sextet_sextetChar url (show a.toNat / 4 < 64 by omega)
    have h2 := sextet_sextetChar url (show a.toNat % 4 * 16 + b.toNat / 16 < 64 by omega)
    have h3 := sextet_sextetChar url (show b.toNat % 16 * 4 < 64 by omega)
    have hbytes := quad_bytes a b 0
    have hzero : b.toNat % 16 * 4 + (0 : UInt8).toNat / 64 = b.toNat % 16 * 4 := by simp
    rw [hzero] at hbytes
    rw [b64encode, b64decode, h1, h2, h3]
    · simp only [Option.bind_eq_bind, Option.bind_some, hbytes.1, hbytes.2.1]
      rfl
    · exact sextetChar_ne_pad url (by omega)
  | case4 a b c rest ih =>
    have ha := a.toNat_lt
    have hb := b.toNat_lt
    have hc := c.toNat_lt
    have h1 := sextet_sextetChar url (show a.toNat / 4 < 64 by omega)
    have h2 := sextet_sextetChar url (show a.toNat % 4 * 16 + b.toNat / 16 < 64 by omega)
    have h3 := sextet_sextetChar url (show b.toNat % 16 * 4 + c.toNat / 64 < 64 by omega)
    have h4 := sextet_sextetChar url (show c.toNat % 64 < 64 by omega)
    have hpad := sextetChar_ne_pad url (show c.toNat % 64 < 64 by omega)
    have hbytes := quad_bytes a b c
    rw [b64encode, b64decode, h1, h2, h3, h4, ih]
    · simp only [Option.bind_eq_bind, Option.bind_some, hbytes.1, hbytes.2.1, hbytes.2.2]
      rfl
    · intro _ h
      exact absurd h hpad
    · intro h
      exact absurd h hpad

theorem b64encode_length (url : Bool) (raw : Bytes) :
    (b64encode url raw).length = 4 * ((raw.length + 2) / 3) := by
  induction raw using b64encode.induct with
  | case1 => rfl
  | case2 a => simp [b64encode]
  | case3 a b => simp [b64encode]
  | case4 a b c rest ih =>
    simp only [b64encode, List.length_cons, ih]
    omega

end Python
