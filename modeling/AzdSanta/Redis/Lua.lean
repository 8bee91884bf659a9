import AzdSanta.Redis.Store
import Mathlib.Data.List.Basic
import Mathlib.Tactic

/-! The Lua 5.1 string functions used by scripts, on whole numbers. -/
namespace Redis.Lua

/-- `string.match(v, '^[class]+$')`. -/
def matchAll (p : Char → Bool) (v : Bytes) : Bool := !v.isEmpty && v.all p

/-- `%d`. -/
def digit (c : Char) : Bool := c.isDigit

/-- `[0-9a-f]`. -/
def hex (c : Char) : Bool := c.isDigit || (decide ('a' ≤ c) && decide (c ≤ 'f'))

/-- `[A-Za-z0-9_-]`. -/
def urlsafe (c : Char) : Bool := c.isAlphanum || c = '_' || c = '-'

/-- `tonumber` on decimal digits. The other spellings that Lua reads (hexadecimal,
exponents, surrounding blanks) are refused by the digit patterns of every caller. -/
def tonumber (v : Bytes) : Option ℕ :=
  if matchAll digit v then some (Nat.ofDigitChars 10 v 0) else none

private def dropTrailingZeros (v : Bytes) : Bytes := (v.reverse.dropWhile (· = '0')).reverse

/-- Fourteen significant digits, rounded half to even, and the decimal exponent. -/
private def scientific (n : ℕ) : ℕ × ℕ :=
  let e := (Nat.toDigits 10 n).length - 1
  let unit := 10 ^ (e - 13)
  let m := n / unit
  let up := unit < 2 * (n % unit) ∨ (unit = 2 * (n % unit) ∧ m % 2 = 1)
  let m := if up then m + 1 else m
  if m = 10 ^ 14 then (10 ^ 13, e + 1) else (m, e)

/-- `tostring` prints numbers with `%.14g`. -/
def tostring (n : ℕ) : Bytes :=
  if n < 10 ^ 14 then Nat.toDigits 10 n
  else
    let (m, e) := scientific n
    let digits := Nat.toDigits 10 m
    let fraction := dropTrailingZeros (digits.drop 1)
    digits.take 1 ++ (if fraction = [] then [] else '.' :: fraction) ++ 'e' :: '+' :: Nat.toDigits 10 e

/-- The spelling `INCR` stores. -/
def integerText : ℤ → Bytes
  | .ofNat n => Nat.toDigits 10 n
  | .negSucc n => '-' :: Nat.toDigits 10 (n + 1)

/-- The integers `INCR` accepts: canonical decimals of signed 64-bit numbers. -/
def integer? (v : Bytes) : Option ℤ :=
  let n : Option ℤ := match v with
    | '-' :: w => (tonumber w).map fun n : ℕ => -(n : ℤ)
    | w => (tonumber w).map fun n : ℕ => (n : ℤ)
  n.filter fun n => integerText n = v ∧ -2 ^ 63 ≤ n ∧ n < 2 ^ 63

theorem matchAll_iff {p : Char → Bool} {v : Bytes} :
    matchAll p v = true ↔ v ≠ [] ∧ ∀ c ∈ v, p c = true := by
  simp [matchAll]

theorem matchAll_toDigits (n : ℕ) : matchAll digit (Nat.toDigits 10 n) = true :=
  matchAll_iff.mpr ⟨Nat.toDigits_ne_nil, fun _ hc =>
    Nat.isDigit_of_mem_toDigits (by decide) (by decide) hc⟩

@[simp] theorem tonumber_toDigits (n : ℕ) : tonumber (Nat.toDigits 10 n) = some n := by
  simp [tonumber, matchAll_toDigits]

theorem toDigits_injective {m n : ℕ} (h : Nat.toDigits 10 m = Nat.toDigits 10 n) : m = n := by
  have hm := tonumber_toDigits m
  rw [h, tonumber_toDigits] at hm
  exact (Option.some.inj hm).symm

theorem tostring_of_lt {n : ℕ} (h : n < 10 ^ 14) : tostring n = Nat.toDigits 10 n := if_pos h

/-- Past fourteen digits the exponent form is no digit string. -/
theorem matchAll_tostring {n : ℕ} (h : matchAll digit (tostring n) = true) : n < 10 ^ 14 := by
  by_contra hn
  have he : 'e' ∈ tostring n := by
    rw [tostring, if_neg hn]
    simp
  have hd := (matchAll_iff.mp h).2 'e' he
  exact absurd hd (by decide)

/-- A printed number starts with a digit. -/
theorem tostring_head (n : ℕ) : ∃ d rest, tostring n = d :: rest ∧ digit d = true := by
  have hcons (m : ℕ) : ∃ d rest, Nat.toDigits 10 m = d :: rest ∧ digit d = true := by
    obtain ⟨d, rest, hd⟩ := List.exists_cons_of_ne_nil (Nat.toDigits_ne_nil (b := 10) (n := m))
    exact ⟨d, rest, hd, (matchAll_iff.mp (matchAll_toDigits m)).2 d (by simp [hd])⟩
  by_cases hn : n < 10 ^ 14
  · rw [tostring_of_lt hn]
    exact hcons n
  · obtain ⟨d, rest, hd, hdigit⟩ := hcons (scientific n).1
    rw [tostring, if_neg hn]
    simp only [hd, List.take_succ_cons, List.take_zero, List.cons_append, List.nil_append]
    exact ⟨d, _, rfl, hdigit⟩

theorem toDigits_ne_minus (n : ℕ) (w : Bytes) : Nat.toDigits 10 n ≠ '-' :: w := by
  intro hw
  have hd := (matchAll_iff.mp (matchAll_toDigits n)).2 '-' (by simp [hw])
  exact absurd hd (by decide)

theorem integerText_injective {m n : ℤ} (h : integerText m = integerText n) : m = n := by
  cases m <;> cases n <;> simp only [integerText] at h
  · exact congrArg Int.ofNat (toDigits_injective h)
  · exact absurd h (toDigits_ne_minus _ _)
  · exact absurd h.symm (toDigits_ne_minus _ _)
  · have hs := toDigits_injective (List.cons.inj h).2
    exact congrArg Int.negSucc (Nat.succ.inj hs)

@[simp] theorem integer?_toDigits {n : ℕ} (h : n < 2 ^ 63) :
    integer? (Nat.toDigits 10 n) = some (n : ℤ) := by
  unfold integer?
  split
  · rename_i w hw
    exact absurd hw (toDigits_ne_minus n w)
  · have ht : integerText (n : ℤ) = Nat.toDigits 10 n := rfl
    simp only [tonumber_toDigits, Option.map_some, Option.filter_some, ht]
    rw [if_pos]
    simp only [true_and, decide_eq_true_eq]
    omega

/-- A digit string that `INCR` accepts is canonical. -/
theorem integer?_of_tonumber {v : Bytes} {n : ℕ} {i : ℤ} (hn : tonumber v = some n)
    (hi : integer? v = some i) : i = n ∧ v = Nat.toDigits 10 n := by
  unfold integer? at hi
  split at hi
  · next w =>
    have hm : matchAll digit ('-' :: w) = true := by
      by_contra hm
      simp [tonumber, hm] at hn
    exact absurd ((matchAll_iff.mp hm).2 '-' (by simp)) (by decide)
  · rw [hn, Option.map_some, Option.filter_some] at hi
    split_ifs at hi with hc
    obtain rfl := (Option.some.inj hi).symm
    simp only [decide_eq_true_eq] at hc
    exact ⟨rfl, hc.1.symm⟩

end Redis.Lua
