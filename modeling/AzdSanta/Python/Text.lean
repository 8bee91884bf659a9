import Mathlib.Data.List.Basic
import Mathlib.Data.Nat.Digits.Lemmas
import Mathlib.Tactic

/-! Python strings and bytes: code points, decimal and hexadecimal text, UTF-8. -/
namespace Python

abbrev Bytes := List UInt8

/-- The code points of a Python string. -/
abbrev Text := List ℕ

instance : LawfulBEq Text := inferInstance

def text (s : String) : Text := s.toList.map Char.toNat

/-- A surrogate code point; a Python string may hold it, UTF-8 may not. -/
def isSurrogate (c : ℕ) : Bool := 0xD800 ≤ c && c < 0xE000

/-- A Unicode scalar value. -/
def isScalar (c : ℕ) : Bool := c < 0x110000 && !isSurrogate c

/-- `str(n)` of a natural number. -/
def decimal (n : ℕ) : Text :=
  if n = 0 then [48] else (Nat.digits 10 n).reverse.map (48 + ·)

/-- `int(digits)`. -/
def readDecimal (digits : Text) : ℕ := Nat.ofDigits 10 (digits.reverse.map (· - 48))

def isDigit (c : ℕ) : Bool := 48 ≤ c && c ≤ 57

section Decimal

theorem readDecimal_decimal (n : ℕ) : readDecimal (decimal n) = n := by
  unfold decimal
  split_ifs with hn
  · rw [hn]
    rfl
  · have hmap : (((· - 48) : ℕ → ℕ) ∘ fun d => 48 + d) = id := by
      funext d
      simp
    rw [readDecimal, ← List.map_reverse, List.reverse_reverse, List.map_map, hmap, List.map_id,
      Nat.ofDigits_digits]

theorem isDigit_of_mem_decimal {n c : ℕ} (h : c ∈ decimal n) : isDigit c = true := by
  unfold decimal at h
  split_ifs at h with hn
  · obtain rfl := List.mem_singleton.mp h
    rfl
  · obtain ⟨d, hd, rfl⟩ := List.mem_map.mp h
    have hlt : d < 10 := Nat.digits_lt_base (by norm_num) (List.mem_reverse.mp hd)
    simp only [isDigit, Bool.and_eq_true, decide_eq_true_eq]
    omega

theorem decimal_ne_nil (n : ℕ) : decimal n ≠ [] := by
  unfold decimal
  split_ifs with hn
  · simp
  · simpa using Nat.digits_ne_nil_iff_ne_zero.mpr hn

/-- A decimal text starts with 0 only when it is 0. -/
theorem decimal_head {n : ℕ} {rest : Text} (h : decimal n = 48 :: rest) : rest = [] := by
  unfold decimal at h
  split_ifs at h with hn
  · simpa using h.symm
  · have hlast : (Nat.digits 10 n).reverse.head? = some 0 := by
      cases hrev : (Nat.digits 10 n).reverse with
      | nil => simp [hrev] at h
      | cons d ds =>
        rw [hrev, List.map_cons, List.cons.injEq] at h
        have : d = 0 := by omega
        rw [this]
        rfl
    rw [List.head?_reverse] at hlast
    have hne : Nat.digits 10 n ≠ [] := Nat.digits_ne_nil_iff_ne_zero.mpr hn
    rw [List.getLast?_eq_some_getLast hne] at hlast
    exact absurd (Option.some.inj hlast) (Nat.getLast_digit_ne_zero 10 hn)

theorem decimal_length_le {n k : ℕ} (h : n < 10 ^ (k + 1)) : (decimal n).length ≤ k + 1 := by
  unfold decimal
  split_ifs
  · simp
  · rw [List.length_map, List.length_reverse]
    exact (Nat.digits_length_le_iff (by norm_num) n).mpr h

end Decimal

/-- UTF-8 of one code point. -/
def utf8Char (c : ℕ) : Bytes :=
  if c < 0x80 then [.ofNat c]
  else if c < 0x800 then [.ofNat (0xC0 + c / 64), .ofNat (0x80 + c % 64)]
  else if c < 0x10000 then
    [.ofNat (0xE0 + c / 4096), .ofNat (0x80 + c / 64 % 64), .ofNat (0x80 + c % 64)]
  else [.ofNat (0xF0 + c / 262144), .ofNat (0x80 + c / 4096 % 64), .ofNat (0x80 + c / 64 % 64),
    .ofNat (0x80 + c % 64)]

/-- `encode('utf-8')`; `none` is a `UnicodeEncodeError`. -/
def encodeUtf8 (t : Text) : Option Bytes :=
  if t.all isScalar then some (t.flatMap utf8Char) else none

/-- The six bits of a continuation byte. -/
def takeTail : Bytes → Option (ℕ × Bytes)
  | b :: rest => if 0x80 ≤ b.toNat ∧ b.toNat < 0xC0 then some (b.toNat - 0x80, rest) else none
  | [] => none

/-- The first code point; with `pass`, also a surrogate. -/
def takeUtf8 (pass : Bool) : Bytes → Option (ℕ × Bytes)
  | [] => none
  | lead :: rest =>
    let a := lead.toNat
    if a < 0x80 then some (a, rest)
    else if a < 0xC2 then none
    else if a < 0xE0 then do
      let (b, rest) ← takeTail rest
      some ((a - 0xC0) * 64 + b, rest)
    else if a < 0xF0 then do
      let (b, rest) ← takeTail rest
      let (c, rest) ← takeTail rest
      let point := (a - 0xE0) * 4096 + b * 64 + c
      if point < 0x800 ∨ (isSurrogate point ∧ ¬ pass) then none else some (point, rest)
    else do
      let (b, rest) ← takeTail rest
      let (c, rest) ← takeTail rest
      let (d, rest) ← takeTail rest
      let point := (a - 0xF0) * 262144 + b * 4096 + c * 64 + d
      if point < 0x10000 ∨ 0x110000 ≤ point then none else some (point, rest)

def decodePoints (take : Bytes → Option (ℕ × Bytes)) : ℕ → Bytes → Option Text
  | _, [] => some []
  | 0, _ => none
  | n + 1, raw => do
    let (c, rest) ← take raw
    let points ← decodePoints take n rest
    return c :: points

/-- `decode('utf-8')`, with `errors='surrogatepass'` when `pass`; `none` is a `UnicodeDecodeError`. -/
def decodeUtf8 (pass : Bool) (raw : Bytes) : Option Text := decodePoints (takeUtf8 pass) raw.length raw

/-- `decode('ascii')`. -/
def decodeAscii (raw : Bytes) : Option Text :=
  if raw.all fun b => b.toNat < 128 then some (raw.map UInt8.toNat) else none

/-- The characters that end a line of `str.splitlines`. -/
def isLineBreak (c : ℕ) : Bool :=
  (10 ≤ c && c ≤ 13) || (28 ≤ c && c ≤ 30) || c = 133 || c = 8232 || c = 8233

/-- `str.splitlines()`. -/
def splitlines : Text → List Text
  | [] => []
  | 13 :: 10 :: rest => [] :: splitlines rest
  | c :: rest =>
    if isLineBreak c then [] :: splitlines rest
    else match splitlines rest with
      | [] => [[c]]
      | line :: lines => (c :: line) :: lines

section Utf8

theorem toNat_ofNat_of_lt {n : ℕ} (hn : n < 256) : (UInt8.ofNat n).toNat = n := by
  simpa [UInt8.toNat_ofNat'] using hn

theorem takeTail_ofNat (n : ℕ) (rest : Bytes) :
    takeTail (.ofNat (0x80 + n % 64) :: rest) = some (n % 64, rest) := by
  rw [takeTail, toNat_ofNat_of_lt (by omega), if_pos (by omega), Nat.add_sub_cancel_left]

theorem takeUtf8_two {pass : Bool} {a x : ℕ} (hlow : 0xC2 ≤ a) (hhigh : a < 0xE0) (rest : Bytes) :
    takeUtf8 pass (.ofNat a :: .ofNat (0x80 + x % 64) :: rest) = some ((a - 0xC0) * 64 + x % 64, rest) := by
  simp only [takeUtf8, toNat_ofNat_of_lt (show a < 256 by omega), takeTail_ofNat]
  rw [if_neg (by omega), if_neg (by omega), if_pos hhigh]
  rfl

theorem takeUtf8_three {pass : Bool} {a x y point : ℕ} (hlow : 0xE0 ≤ a) (hhigh : a < 0xF0)
    (hpoint : (a - 0xE0) * 4096 + x % 64 * 64 + y % 64 = point) (hlong : 0x800 ≤ point)
    (hsurrogate : isSurrogate point = false) (rest : Bytes) :
    takeUtf8 pass (.ofNat a :: .ofNat (0x80 + x % 64) :: .ofNat (0x80 + y % 64) :: rest) =
      some (point, rest) := by
  simp only [takeUtf8, toNat_ofNat_of_lt (show a < 256 by omega), takeTail_ofNat]
  rw [if_neg (by omega), if_neg (by omega), if_neg (by omega), if_pos hhigh]
  simp only [Option.bind_eq_bind, Option.bind_some, takeTail_ofNat, hpoint, hsurrogate]
  rw [if_neg (by simpa using hlong)]

theorem takeUtf8_long {pass : Bool} {lead : UInt8} (hlead : 0xF0 ≤ lead.toNat) (rest : Bytes) :
    takeUtf8 pass (lead :: rest) = (takeTail rest).bind fun b => (takeTail b.2).bind fun c =>
      (takeTail c.2).bind fun d =>
        if (lead.toNat - 0xF0) * 262144 + b.1 * 4096 + c.1 * 64 + d.1 < 0x10000 ∨
            0x110000 ≤ (lead.toNat - 0xF0) * 262144 + b.1 * 4096 + c.1 * 64 + d.1 then none
        else some ((lead.toNat - 0xF0) * 262144 + b.1 * 4096 + c.1 * 64 + d.1, d.2) := by
  rw [takeUtf8]
  rw [if_neg (by omega), if_neg (by omega), if_neg (by omega), if_neg (by omega)]
  rfl

theorem takeUtf8_four {pass : Bool} {a x y z point : ℕ} (hlow : 0xF0 ≤ a) (hhigh : a < 256)
    (hpoint : (a - 0xF0) * 262144 + x % 64 * 4096 + y % 64 * 64 + z % 64 = point)
    (hlong : 0x10000 ≤ point) (hmax : point < 0x110000) (rest : Bytes) :
    takeUtf8 pass (.ofNat a :: .ofNat (0x80 + x % 64) :: .ofNat (0x80 + y % 64) ::
      .ofNat (0x80 + z % 64) :: rest) = some (point, rest) := by
  have ha : (UInt8.ofNat a).toNat = a := toNat_ofNat_of_lt hhigh
  rw [takeUtf8_long (by omega), ha]
  rw [takeTail_ofNat, Option.bind_some, takeTail_ofNat, Option.bind_some, takeTail_ofNat, Option.bind_some]
  dsimp only
  rw [hpoint, if_neg (by omega)]

theorem takeUtf8_char {pass : Bool} {c : ℕ} (hc : isScalar c = true) (rest : Bytes) :
    takeUtf8 pass (utf8Char c ++ rest) = some (c, rest) := by
  have hmax : c < 0x110000 := by
    simp only [isScalar, Bool.and_eq_true, decide_eq_true_eq] at hc
    exact hc.1
  have hsurrogate : isSurrogate c = false := by
    simp only [isScalar, Bool.and_eq_true, Bool.not_eq_true'] at hc
    exact hc.2
  unfold utf8Char
  split_ifs with h1 h2 h3
  · simp only [List.singleton_append, takeUtf8, toNat_ofNat_of_lt (show c < 256 by omega)]
    rw [if_pos h1]
  · have hpoint : (0xC0 + c / 64 - 0xC0) * 64 + c % 64 = c := by omega
    rw [List.cons_append, List.cons_append, List.nil_append, takeUtf8_two (by omega) (by omega), hpoint]
  · rw [List.cons_append, List.cons_append, List.cons_append, List.nil_append]
    apply takeUtf8_three (by omega) (by omega) (by omega) (by omega) hsurrogate
  · rw [List.cons_append, List.cons_append, List.cons_append, List.cons_append, List.nil_append]
    apply takeUtf8_four (by omega) (by omega) (by omega) (by omega) hmax

theorem utf8Char_ne_nil (c : ℕ) : utf8Char c ≠ [] := by
  unfold utf8Char
  split_ifs <;> simp

/-- Points that `take` reads one after another. -/
theorem decodePoints_flatMap {take : Bytes → Option (ℕ × Bytes)} {put : ℕ → Bytes} {t : Text}
    (hput : ∀ c ∈ t, put c ≠ []) (htake : ∀ c ∈ t, ∀ rest, take (put c ++ rest) = some (c, rest))
    {n : ℕ} (hn : t.length ≤ n) : decodePoints take n (t.flatMap put) = some t := by
  induction t generalizing n with
  | nil => cases n <;> rfl
  | cons c t ih =>
    obtain ⟨m, rfl⟩ : ∃ m, n = m + 1 := ⟨n - 1, by simp at hn; omega⟩
    have hne := hput c List.mem_cons_self
    rw [List.flatMap_cons]
    cases hraw : put c ++ t.flatMap put with
    | nil => simp [hne] at hraw
    | cons b raw =>
      rw [decodePoints, ← hraw, htake c List.mem_cons_self]
      · simp only [Option.bind_eq_bind, Option.bind_some]
        rw [ih (fun c hc => hput c (List.mem_cons_of_mem _ hc))
          (fun c hc => htake c (List.mem_cons_of_mem _ hc)) (by simpa using hn)]
        rfl
      · simp

theorem decodeUtf8_encodeUtf8 {pass : Bool} {t : Text} {raw : Bytes} (h : encodeUtf8 t = some raw) :
    decodeUtf8 pass raw = some t := by
  unfold encodeUtf8 at h
  split_ifs at h with hall
  obtain rfl := Option.some.inj h
  refine decodePoints_flatMap (fun c _ => utf8Char_ne_nil c)
    (fun c hc => takeUtf8_char (List.all_eq_true.mp hall c hc)) ?_
  rw [List.length_flatMap, ← List.length_map fun c => (utf8Char c).length]
  apply List.length_le_sum_of_one_le
  intro i hi
  obtain ⟨c, -, rfl⟩ := List.mem_map.mp hi
  exact List.length_pos_of_ne_nil (utf8Char_ne_nil c)

theorem encodeUtf8_scalars {t : Text} (ht : ∀ c ∈ t, isScalar c = true) :
    encodeUtf8 t = some (t.flatMap utf8Char) := by
  rw [encodeUtf8, if_pos (List.all_eq_true.mpr ht)]

theorem encodeUtf8_injective {s t : Text} {raw : Bytes} (hs : encodeUtf8 s = some raw)
    (ht : encodeUtf8 t = some raw) : s = t := by
  have hdecode := @decodeUtf8_encodeUtf8 false _ _ hs
  rw [decodeUtf8_encodeUtf8 ht] at hdecode
  exact (Option.some.inj hdecode).symm

end Utf8

section Join

theorem mem_intercalate {x c : ℕ} {parts : List Text} (h : c ∈ [x].intercalate parts) :
    c = x ∨ ∃ part ∈ parts, c ∈ part := by
  induction parts with
  | nil => simp [List.intercalate] at h
  | cons part parts ih =>
    cases parts with
    | nil => exact Or.inr ⟨part, by simp, by simpa [List.intercalate] using h⟩
    | cons next rest =>
      rw [List.intercalate_cons_cons, List.append_assoc] at h
      rcases List.mem_append.mp h with h | h
      · exact Or.inr ⟨part, by simp, h⟩
      · rcases List.mem_append.mp h with h | h
        · exact Or.inl (List.mem_singleton.mp h)
        · obtain rfl | ⟨p, hp, hc⟩ := ih h
          · exact Or.inl rfl
          · exact Or.inr ⟨p, List.mem_cons_of_mem _ hp, hc⟩

/-- Parts without the separator are found in what is joined. -/
theorem intercalate_injective {x : ℕ} {parts parts' : List Text} (hparts : ∀ part ∈ parts, x ∉ part)
    (hparts' : ∀ part ∈ parts', x ∉ part) (hne : parts ≠ []) (hne' : parts' ≠ [])
    (h : [x].intercalate parts = [x].intercalate parts') : parts = parts' := by
  rw [← List.splitOn_intercalate x hparts hne, h, List.splitOn_intercalate x hparts' hne']

end Join

end Python
