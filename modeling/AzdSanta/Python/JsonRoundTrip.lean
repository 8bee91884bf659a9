import AzdSanta.Common.Checks
import AzdSanta.Python.Json

/-! `json.loads` reads back what `json.dumps` wrote. -/
namespace Python
open Checks

section Strings

attribute [local simp] scanUnits

/-- What a character is read as, once written. -/
def charUnits (ascii : Bool) (c : ℕ) : List (ℕ × Bool) :=
  if c = 34 ∨ c = 92 ∨ c = 10 ∨ c = 13 ∨ c = 9 ∨ c = 12 ∨ c = 8 then [(c, false)]
  else if c < 32 then [(c, true)]
  else if ¬ ascii ∨ c < 127 then [(c, false)]
  else if c < 0x10000 then [(c, true)]
  else [(0xD800 + (c - 0x10000) / 1024, true), (0xDC00 + (c - 0x10000) % 1024, true)]

theorem hexValue_hexDigit {n : ℕ} (hn : n < 16) : hexValue (hexDigit n) = some n := by
  interval_cases n <;> rfl

theorem scanUnits_escapeUnit {n : ℕ} (hn : n < 0x10000) (rest : Text) :
    scanUnits (escapeUnit n ++ rest) = do
      let (units, tail) ← scanUnits rest
      return ((n, true) :: units, tail) := by
  have hvalue : n / 4096 % 16 * 4096 + n / 256 % 16 * 256 + n / 16 % 16 * 16 + n % 16 = n := by omega
  have hmod (k : ℕ) : k % 16 < 16 := Nat.mod_lt _ (by norm_num)
  simp only [escapeUnit, List.cons_append, List.nil_append, scanUnits, hexValue_hexDigit (hmod _), hvalue]

theorem scanUnits_short {e c : ℕ} (he : shortEscape e = some c) (rest : Text) :
    scanUnits (92 :: e :: rest) = do
      let (units, tail) ← scanUnits rest
      return ((c, false) :: units, tail) := by
  have hu : e ≠ 117 := by
    rintro rfl
    cases he
  rw [scanUnits, he]
  intro a b c d r h
  exact absurd h hu

theorem scanUnits_plain {c : ℕ} (hquote : c ≠ 34) (hslash : c ≠ 92) (hc : 32 ≤ c) (rest : Text) :
    scanUnits (c :: rest) = do
      let (units, tail) ← scanUnits rest
      return ((c, false) :: units, tail) := by
  rw [scanUnits, if_neg (by omega)]
  · exact hquote
  · intro a b c d r h
    exact absurd h hslash
  · intro e r h
    exact absurd h hslash

theorem scanUnits_escapeChar {ascii : Bool} {c : ℕ} (hc : c < 0x110000) (rest : Text) :
    scanUnits (escapeChar ascii c ++ rest) = do
      let (units, tail) ← scanUnits rest
      return (charUnits ascii c ++ units, tail) := by
  unfold escapeChar charUnits
  split_ifs
  all_goals first | omega | skip
  · exact scanUnits_short (by rw [shortEscape, if_pos (by omega)]) rest
  · next h _ =>
    subst h
    exact scanUnits_short rfl rest
  · next h _ =>
    subst h
    exact scanUnits_short rfl rest
  · next h _ =>
    subst h
    exact scanUnits_short rfl rest
  · next h _ =>
    subst h
    exact scanUnits_short rfl rest
  · next h _ =>
    subst h
    exact scanUnits_short rfl rest
  · exact scanUnits_escapeUnit (by omega) rest
  · exact scanUnits_plain (by omega) (by omega) (by omega) rest
  · exact scanUnits_escapeUnit (by omega) rest
  · rw [List.append_assoc, scanUnits_escapeUnit (by omega), scanUnits_escapeUnit (by omega)]
    cases scanUnits rest <;> rfl

theorem scanUnits_quoted {ascii : Bool} {s : Text} (hs : ∀ c ∈ s, c < 0x110000) (rest : Text) :
    scanUnits (s.flatMap (escapeChar ascii) ++ 34 :: rest) =
      .ok (s.flatMap (charUnits ascii), rest) := by
  induction s with
  | nil => rfl
  | cons c s ih =>
    rw [List.flatMap_cons, List.append_assoc, scanUnits_escapeChar (hs c List.mem_cons_self),
      ih fun c hc => hs c (List.mem_cons_of_mem _ hc)]
    rfl

theorem joinUnits_cons {c : ℕ} {escaped : Bool} (hc : isSurrogate c = false) (units : List (ℕ × Bool)) :
    joinUnits ((c, escaped) :: units) = c :: joinUnits units := by
  cases units with
  | nil => rfl
  | cons unit units =>
    obtain ⟨d, escaped'⟩ := unit
    rw [joinUnits, if_neg]
    rintro ⟨-, -, hlow, hhigh, -⟩
    simp only [isSurrogate, Bool.and_eq_false_iff, decide_eq_false_iff_not] at hc
    omega

theorem joinUnits_charUnits {ascii : Bool} {c : ℕ} (hc : isScalar c = true) (units : List (ℕ × Bool)) :
    joinUnits (charUnits ascii c ++ units) = c :: joinUnits units := by
  simp only [isScalar, Bool.and_eq_true, Bool.not_eq_true', decide_eq_true_eq] at hc
  unfold charUnits
  split_ifs with h1 h2 h3 h4
  · exact joinUnits_cons hc.2 units
  · exact joinUnits_cons hc.2 units
  · exact joinUnits_cons hc.2 units
  · exact joinUnits_cons hc.2 units
  · have hjoin : 0x10000 + (0xD800 + (c - 0x10000) / 1024 - 0xD800) * 1024 +
        (0xDC00 + (c - 0x10000) % 1024 - 0xDC00) = c := by omega
    rw [List.cons_append, List.singleton_append, joinUnits, if_pos, hjoin]
    refine ⟨rfl, rfl, ?_⟩
    omega

theorem joinUnits_flatMap {ascii : Bool} {s : Text} (hs : ∀ c ∈ s, isScalar c = true) :
    joinUnits (s.flatMap (charUnits ascii)) = s := by
  induction s with
  | nil => rfl
  | cons c s ih =>
    rw [List.flatMap_cons, joinUnits_charUnits (hs c List.mem_cons_self),
      ih fun c hc => hs c (List.mem_cons_of_mem _ hc)]

/-- A string without surrogates is read back. -/
theorem scanString_quoted {ascii : Bool} {s : Text} (hs : ∀ c ∈ s, isScalar c = true) (rest : Text) :
    scanString (s.flatMap (escapeChar ascii) ++ 34 :: rest) = .ok (s, rest) := by
  have hmax (c : ℕ) (hc : c ∈ s) : c < 0x110000 := by
    have h := hs c hc
    simp only [isScalar, Bool.and_eq_true, decide_eq_true_eq] at h
    exact h.1
  simp only [scanString, scanUnits_quoted hmax, ok_bind, joinUnits_flatMap hs]
  rfl

end Strings

section Numbers

/-- A text that does not go on with a number. -/
def Stops (rest : Text) : Prop := ∀ c ∈ rest.head?, isDigit c = false ∧ c ≠ 46 ∧ c ≠ 101 ∧ c ≠ 69

theorem takeWhile_append_stops {digits rest : Text} (hdigits : ∀ c ∈ digits, isDigit c = true)
    (hrest : Stops rest) : (digits ++ rest).takeWhile isDigit = digits ∧
      (digits ++ rest).dropWhile isDigit = rest := by
  have hstop : rest.takeWhile isDigit = [] ∧ rest.dropWhile isDigit = rest := by
    cases rest with
    | nil => exact ⟨rfl, rfl⟩
    | cons c rest => simp [(hrest c rfl).1]
  rw [List.takeWhile_append_of_pos hdigits, List.dropWhile_append_of_pos hdigits, hstop.1, hstop.2]
  exact ⟨List.append_nil _, rfl⟩

theorem scanWhole_decimal (n : ℕ) {rest : Text} (hrest : Stops rest) :
    scanWhole (decimal n ++ rest) = (decimal n, rest) := by
  have hspan := takeWhile_append_stops (fun c hc => isDigit_of_mem_decimal (n := n) hc) hrest
  cases hd : decimal n with
  | nil => exact absurd hd (decimal_ne_nil n)
  | cons c digits =>
    by_cases hc : c = 48
    · subst hc
      rw [decimal_head hd]
      rfl
    · rw [hd] at hspan
      rw [List.cons_append, scanWhole, ← List.cons_append, hspan.1, hspan.2]
      exact fun r h => hc (List.cons.inj h).1

theorem scanFraction_stops {rest : Text} (hrest : Stops rest) : scanFraction rest = ([], rest) := by
  cases rest with
  | nil => rfl
  | cons c rest =>
    rw [scanFraction]
    exact fun r h => (hrest c rfl).2.1 (List.cons.inj h).1

theorem scanExponent_stops {rest : Text} (hrest : Stops rest) : scanExponent rest = ([], rest) := by
  cases rest with
  | nil => rfl
  | cons c rest =>
    have hc := hrest c rfl
    simp [scanExponent, hc.2.2.1, hc.2.2.2]

theorem scanUnsigned_decimal {read : Text → Text} {negative : Bool} {n : ℕ} {rest : Text}
    (hsize : (decimal n).length ≤ maxDigits) (hrest : Stops rest) :
    scanUnsigned read negative (decimal n ++ rest) =
      .ok (.int (if negative then -n else n), rest) := by
  simp only [scanUnsigned, scanWhole_decimal n hrest, scanFraction_stops hrest, scanExponent_stops hrest]
  rw [if_neg (decimal_ne_nil n), if_neg (by simp), if_neg (by omega), readDecimal_decimal]
  rfl

theorem scanWord_number {r : Reader} {input : Text}
    (hword : ∀ word ∈ [text "null", text "true", text "false"] ++ constants, ¬ word <+: input) :
    scanWord r input = scanNumber r.float input := by
  have hnone : constants.find? (fun word => word <+: input) = none := by
    rw [List.find?_eq_none]
    intro word hmem
    simpa using hword word (List.mem_append_right _ hmem)
  rw [scanWord, if_neg (hword _ (by simp)), if_neg (hword _ (by simp)), if_neg (hword _ (by simp)), hnone]

/-- A text that starts with a digit is none of the words. -/
theorem scanWord_digit {r : Reader} {c : ℕ} {rest : Text} (hc : isDigit c = true) :
    scanWord r (c :: rest) = scanUnsigned r.float false (c :: rest) := by
  simp only [isDigit, Bool.and_eq_true, decide_eq_true_eq] at hc
  rw [scanWord_number]
  · rw [scanNumber]
    intro r h
    rw [(List.cons.inj h).1] at hc
    omega
  · have hstart (w : ℕ) (ws : Text) (hw : w < 48 ∨ 57 < w) : ¬ w :: ws <+: c :: rest := by
      rw [List.cons_prefix_cons]
      omega
    simp [constants, text, hstart]

theorem scanWord_minus {r : Reader} {c : ℕ} {rest : Text} (hc : isDigit c = true) :
    scanWord r (45 :: c :: rest) = scanUnsigned r.float true (c :: rest) := by
  simp only [isDigit, Bool.and_eq_true, decide_eq_true_eq] at hc
  rw [scanWord_number, scanNumber]
  have hstart (w : ℕ) (ws : Text) (hw : 57 < w) : ¬ w :: ws <+: c :: rest := by
    rw [List.cons_prefix_cons]
    omega
  simp [constants, text, List.cons_prefix_cons, hstart]

theorem scanWord_printInt {r : Reader} {n : ℤ} {t rest : Text} (h : printInt n = .ok t)
    (hrest : Stops rest) : scanWord r (t ++ rest) = .ok (.int n, rest) := by
  simp only [printInt, throw_eq_error, pure_eq_ok, check_eq_ok, Except.ok.injEq] at h
  obtain ⟨hsize, rfl⟩ := h
  have hread (negative : Bool) := @scanUnsigned_decimal r.float negative _ _
    (not_lt.mp hsize) hrest
  have hdigit (c : ℕ) (hc : c ∈ decimal n.natAbs) := isDigit_of_mem_decimal hc
  cases hd : decimal n.natAbs with
  | nil => exact absurd hd (decimal_ne_nil _)
  | cons c digits =>
    rw [hd] at hread hdigit
    have hc := hdigit c List.mem_cons_self
    split_ifs with hn
    · rw [List.cons_append, List.cons_append, scanWord_minus hc, ← List.cons_append, hread true]
      rw [if_pos rfl, Int.natCast_natAbs, abs_of_neg hn, neg_neg]
    · rw [List.cons_append, scanWord_digit hc, ← List.cons_append, hread false]
      rw [if_neg Bool.false_ne_true, Int.natCast_natAbs, abs_of_nonneg (not_lt.mp hn)]

end Numbers

section Containers

variable {α : Type} {close : ℕ} {element : Scan α}

theorem skipBlanks_append {blanks rest : Text} (hblanks : ∀ c ∈ blanks, isBlank c = true)
    (hrest : ∀ c ∈ rest.head?, isBlank c = false) : skipBlanks (blanks ++ rest) = rest := by
  rw [skipBlanks, List.dropWhile_append_of_pos hblanks]
  cases rest with
  | nil => rfl
  | cons c rest => simp [hrest c rfl]

theorem skipBlanks_eq {rest : Text} (hrest : ∀ c ∈ rest.head?, isBlank c = false) :
    skipBlanks rest = rest :=
  skipBlanks_append (List.forall_mem_nil _) hrest

/-- A text that `element` reads as `x`, whatever comes behind it. -/
structure Reads (element : Scan α) (close : ℕ) (x : α) (part : Text) : Prop where
  start : ∃ c s, part = c :: s ∧ isBlank c = false ∧ c ≠ close
  scan : ∀ rest, Stops rest → element (part ++ rest) = .ok (x, rest)

/-- A separator: a comma or colon and blanks. -/
def Separator (c : ℕ) (separator : Text) : Prop := ∃ blanks, separator = c :: blanks ∧ ∀ b ∈ blanks, isBlank b = true

theorem Reads.skip {x : α} {part : Text} (h : Reads element close x part) (rest : Text) :
    skipBlanks (part ++ rest) = part ++ rest := by
  obtain ⟨c, s, rfl, hc, -⟩ := h.start
  apply skipBlanks_eq
  rintro _ ⟨rfl⟩
  exact hc

theorem scanElements_intercalate {comma : Text} (hcomma : Separator 44 comma) (hclose : close = 93 ∨ close = 125)
    {x : α} {part : Text} {xs : List α} {parts : List Text} (hhead : Reads element close x part)
    (htail : List.Forall₂ (Reads element close) xs parts) {n : ℕ} (hn : xs.length < n) (rest : Text) :
    scanElements close element n (comma.intercalate (part :: parts) ++ close :: rest) =
      .ok (x :: xs, rest) := by
  obtain ⟨blanks, rfl, hblanks⟩ := hcomma
  have hstops (s : Text) : Stops (44 :: s) := by
    rintro c ⟨rfl⟩
    exact ⟨rfl, by norm_num, by norm_num, by norm_num⟩
  have hend : Stops (close :: rest) ∧ isBlank close = false ∧ close ≠ 44 := by
    rcases hclose with rfl | rfl <;> refine ⟨?_, rfl, by norm_num⟩ <;> rintro c ⟨rfl⟩ <;>
      exact ⟨rfl, by norm_num, by norm_num, by norm_num⟩
  induction htail generalizing x part n with
  | nil =>
    obtain ⟨m, rfl⟩ : ∃ m, n = m + 1 := ⟨n - 1, by simp at hn; omega⟩
    have hskip : skipBlanks (close :: rest) = close :: rest := skipBlanks_eq (by simpa using hend.2.1)
    simp only [List.intercalate_singleton, scanElements, hhead.scan _ hend.1, ok_bind, hskip, if_pos]
    rfl
  | @cons y next xs parts hnext _ ih =>
    obtain ⟨m, rfl⟩ : ∃ m, n = m + 1 := ⟨n - 1, by simp at hn; omega⟩
    have hskip (s : Text) : skipBlanks (44 :: s) = 44 :: s := skipBlanks_eq (by simp [isBlank])
    have hsplit : (44 :: blanks).intercalate (part :: next :: parts) ++ close :: rest =
        part ++ (44 :: (blanks ++ ((44 :: blanks).intercalate (next :: parts) ++ close :: rest))) := by
      simp [List.intercalate_cons_cons]
    have hbody : skipBlanks (blanks ++ ((44 :: blanks).intercalate (next :: parts) ++ close :: rest)) =
        (44 :: blanks).intercalate (next :: parts) ++ close :: rest := by
      obtain ⟨c, t, rfl, hc, -⟩ := hnext.start
      apply skipBlanks_append hblanks
      rw [List.intercalate_cons_cons_left]
      rintro _ ⟨rfl⟩
      exact hc
    rw [hsplit, scanElements, hhead.scan _ (hstops _), ok_bind]
    simp only [hskip, if_neg (Ne.symm hend.2.2), if_pos, hbody]
    rw [ih hnext (by simpa using hn)]
    rfl

theorem length_le_intercalate {comma : Text} (hcomma : Separator 44 comma) (part : Text)
    (parts : List Text) : parts.length ≤ (comma.intercalate (part :: parts)).length := by
  obtain ⟨blanks, rfl, -⟩ := hcomma
  induction parts generalizing part with
  | nil => simp
  | cons next parts ih =>
    have hnext := ih next
    simp only [List.intercalate_cons_cons, List.length_append, List.length_cons]
    omega

theorem scanContainer_intercalate {comma : Text} (hcomma : Separator 44 comma)
    (hclose : close = 93 ∨ close = 125) {xs : List α} {parts : List Text}
    (h : List.Forall₂ (Reads element close) xs parts) (rest : Text) :
    scanContainer close element (comma.intercalate parts ++ close :: rest) = .ok (xs, rest) := by
  cases h with
  | nil =>
    have hskip : skipBlanks (close :: rest) = close :: rest := by
      apply skipBlanks_eq
      rcases hclose with rfl | rfl <;> rintro _ ⟨rfl⟩ <;> rfl
    rw [List.intercalate_nil, List.nil_append, scanContainer, hskip]
    simp only [if_pos]
    rfl
  | @cons x part xs parts hhead htail =>
    have hsize : xs.length < (comma.intercalate (part :: parts) ++ close :: rest).length := by
      have hparts := length_le_intercalate hcomma part parts
      have hlength := htail.length_eq
      rw [List.length_append, List.length_cons]
      omega
    have hscan := scanElements_intercalate hcomma hclose hhead htail hsize rest
    obtain ⟨c, t, rfl, hc, hne⟩ := hhead.start
    rw [List.intercalate_cons_cons_left, List.cons_append] at hscan ⊢
    rw [scanContainer, skipBlanks_eq (by rintro _ ⟨rfl⟩; exact hc)]
    simp only [if_neg hne, hscan]

end Containers

section Values

/-- ASCII without the zero character. -/
def Ascii (t : Text) : Prop := ∀ c ∈ t, 0 < c ∧ c < 128

/-- A value that is read back as it is: no surrogate in a string, keys that the writer leaves in
their order and the reader accepts, and floats that read back. -/
def Json.Plain (r : Reader) (w : Writer) : ℕ → Json → Prop
  | _, .float repr => nonFinite.lookup repr = none ∧ Ascii repr ∧
      (∃ c s, repr = c :: s ∧ (isDigit c = true ∨ c = 45)) ∧
      ∀ rest, Stops rest → scanWord r (repr ++ rest) = .ok (.float repr, rest)
  | _, .str s => ∀ c ∈ s, isScalar c = true
  | depth + 1, .arr items => ∀ item ∈ items, item.Plain r w depth
  | depth + 1, .obj members =>
      (w.sorted → members.Pairwise fun a b => a.1 ≤ b.1) ∧ r.pairs members = .ok members ∧
      ∀ m ∈ members, (∀ c ∈ m.1, isScalar c = true) ∧ m.2.Plain r w depth
  | _, _ => True

variable {r : Reader} {w : Writer}

theorem scanOnce_word {d c : ℕ} {s : Text} (hquote : c ≠ 34) (hlist : c ≠ 91) (hobject : c ≠ 123) :
    scanOnce r d (c :: s) = scanWord r (c :: s) := by
  cases d with
  | zero =>
    rw [scanOnce, if_neg (by omega)]
    exact hquote
  | succ d =>
    rw [scanOnce, if_neg hlist, if_neg hobject]
    exact hquote

theorem number_reads {v : Json} {t : Text} (hstart : ∃ c s, t = c :: s ∧ (isDigit c = true ∨ c = 45))
    (hscan : ∀ rest, Stops rest → scanWord r (t ++ rest) = .ok (v, rest)) (d : ℕ) :
    Reads (scanOnce r d) 93 v t := by
  obtain ⟨c, s, rfl, hc⟩ := hstart
  have hrange : 45 ≤ c ∧ c ≤ 57 := by
    simp only [isDigit, Bool.and_eq_true, decide_eq_true_eq] at hc
    omega
  refine ⟨⟨c, s, rfl, ?_, by omega⟩, fun rest hrest => ?_⟩
  · simp only [isBlank, Bool.or_eq_false_iff, decide_eq_false_iff_not]
    omega
  · rw [List.cons_append, scanOnce_word (by omega) (by omega) (by omega), ← List.cons_append,
      hscan rest hrest]

theorem word_reads {v : Json} {t : Text} (ht : ∃ c s, t = c :: s ∧ (c = 110 ∨ c = 116 ∨ c = 102))
    (hscan : ∀ rest, scanWord r (t ++ rest) = .ok (v, rest)) (d : ℕ) : Reads (scanOnce r d) 93 v t := by
  obtain ⟨c, s, rfl, hc⟩ := ht
  refine ⟨⟨c, s, rfl, ?_, by omega⟩, fun rest _ => ?_⟩
  · rcases hc with rfl | rfl | rfl <;> rfl
  · rw [List.cons_append, scanOnce_word (by omega) (by omega) (by omega), ← List.cons_append, hscan]

theorem scanWord_null (rest : Text) : scanWord r (text "null" ++ rest) = .ok (.null, rest) := by
  rw [scanWord, if_pos (List.prefix_append _ _), List.drop_left' (by decide)]
  rfl

/-- The words of the grammar start with different letters. -/
theorem not_prefix_of_head {word other : Text} (h : word.head? ≠ other.head?) (hword : word ≠ [])
    (hother : other ≠ []) (rest : Text) : ¬ word <+: other ++ rest := by
  cases word with
  | nil => exact absurd rfl hword
  | cons c s =>
    cases other with
    | nil => exact absurd rfl hother
    | cons c' s' =>
      rw [List.cons_append, List.cons_prefix_cons]
      rintro ⟨rfl, -⟩
      exact h rfl

theorem scanWord_true (rest : Text) : scanWord r (text "true" ++ rest) = .ok (.bool true, rest) := by
  rw [scanWord, if_neg (not_prefix_of_head (by decide) (by decide) (by decide) rest),
    if_pos (List.prefix_append _ _), List.drop_left' (by decide)]
  rfl

theorem scanWord_false (rest : Text) : scanWord r (text "false" ++ rest) = .ok (.bool false, rest) := by
  rw [scanWord, if_neg (not_prefix_of_head (by decide) (by decide) (by decide) rest),
    if_neg (not_prefix_of_head (by decide) (by decide) (by decide) rest),
    if_pos (List.prefix_append _ _), List.drop_left' (by decide)]
  rfl

theorem string_reads {ascii : Bool} {s : Text} (hs : ∀ c ∈ s, isScalar c = true) (d : ℕ) :
    Reads (scanOnce r d) 93 (.str s) (quote ascii s) := by
  refine ⟨⟨34, _, rfl, rfl, by norm_num⟩, fun rest _ => ?_⟩
  have hscan := @scanString_quoted ascii _ hs rest
  cases d <;> simp [quote, scanOnce, hscan]

theorem member_reads {ascii : Bool} {colon : Text} (hcolon : Separator 58 colon) {key key' : Text}
    (hkey : ∀ rest, scanString (key.flatMap (escapeChar ascii) ++ 34 :: rest) = .ok (key', rest)) {v : Json}
    {t : Text} {scan : Scan Json} (hvalue : Reads scan 93 v t) :
    Reads (scanMember scan) 125 (key', v) (quote ascii key ++ colon ++ t) := by
  obtain ⟨blanks, rfl, hblanks⟩ := hcolon
  refine ⟨⟨34, _, rfl, rfl, by norm_num⟩, fun rest hrest => ?_⟩
  have hkey' := hkey (58 :: (blanks ++ (t ++ rest)))
  have hcolon : skipBlanks (58 :: (blanks ++ (t ++ rest))) = 58 :: (blanks ++ (t ++ rest)) :=
    skipBlanks_eq (by rintro _ ⟨rfl⟩; rfl)
  have hskip : skipBlanks (blanks ++ (t ++ rest)) = t ++ rest := by
    obtain ⟨c, s, rfl, hc, -⟩ := hvalue.start
    exact skipBlanks_append hblanks (by rintro _ ⟨rfl⟩; exact hc)
  simp [quote, scanMember, hkey', hcolon, hskip, hvalue.scan rest hrest]

/-- Members in the order of their keys stay in it. -/
theorem print_order {members : List (Text × Json)}
    (h : w.sorted → members.Pairwise fun a b => a.1 ≤ b.1) :
    (if w.sorted then sortMembers members else members) = members := by
  split_ifs with hw
  · exact (h hw).insertionSort_eq
  · rfl

theorem print_int_start {n : ℤ} {t : Text} (h : printInt n = .ok t) :
    ∃ c s, t = c :: s ∧ (isDigit c = true ∨ c = 45) := by
  simp only [printInt, throw_eq_error, pure_eq_ok, check_eq_ok, Except.ok.injEq] at h
  obtain ⟨-, rfl⟩ := h
  split_ifs
  · exact ⟨_, _, rfl, Or.inr rfl⟩
  · cases hd : decimal n.natAbs with
    | nil => exact absurd hd (decimal_ne_nil _)
    | cons c s => exact ⟨c, s, rfl, Or.inl (isDigit_of_mem_decimal (hd ▸ List.mem_cons_self))⟩

theorem scalar_reads {v : Json} (hscalar : v.hashable = true) {d : ℕ} {t : Text}
    (h : w.print d v = .ok t) (hv : v.Plain r w d) (d' : ℕ) : Reads (scanOnce r d') 93 v t := by
  cases v with
  | null =>
    simp only [Writer.print, pure_eq_ok, Except.ok.injEq] at h
    subst h
    exact word_reads ⟨110, text "ull", by decide, by decide⟩ scanWord_null d'
  | bool b =>
    simp only [Writer.print, pure_eq_ok, Except.ok.injEq] at h
    subst h
    cases b
    · exact word_reads ⟨102, text "alse", by decide, by decide⟩ scanWord_false d'
    · exact word_reads ⟨116, text "rue", by decide, by decide⟩ scanWord_true d'
  | int n =>
    simp only [Writer.print] at h
    exact number_reads (print_int_start h) (fun rest => scanWord_printInt h) d'
  | float repr =>
    simp only [Json.Plain] at hv
    simp only [Writer.print, printFloat, hv.1, pure_eq_ok, Except.ok.injEq] at h
    subst h
    exact number_reads hv.2.2.1 hv.2.2.2 d'
  | str s =>
    simp only [Json.Plain] at hv
    simp only [Writer.print, pure_eq_ok, Except.ok.injEq] at h
    subst h
    exact string_reads hv d'
  | arr | obj => cases hscalar

/-- Every plain value is read back from its text, with at least the room it was written with. -/
theorem print_reads (hcomma : Separator 44 w.comma) (hcolon : Separator 58 w.colon) {d : ℕ} {v : Json}
    {t : Text} (h : w.print d v = .ok t) (hv : v.Plain r w d) {d' : ℕ} (hd : d ≤ d') :
    Reads (scanOnce r d') 93 v t := by
  induction d generalizing v t d' with
  | zero =>
    cases v with
    | null | bool | int | float | str => exact scalar_reads rfl h hv d'
    | arr | obj => simp [Writer.print] at h
  | succ d ih =>
    cases v with
    | null | bool | int | float | str => exact scalar_reads rfl h hv d'
    | arr items =>
      obtain ⟨e, rfl⟩ : ∃ e, d' = e + 1 := ⟨d' - 1, by omega⟩
      simp only [Writer.print, bind_eq_ok, mapM_eq_ok, pure_eq_ok, Except.ok.injEq] at h
      obtain ⟨parts, hparts, rfl⟩ := h
      simp only [Json.Plain] at hv
      have hreads : List.Forall₂ (Reads (scanOnce r e) 93) items parts := by
        have hboth := (List.forall₂_and_left items parts).mpr ⟨hv, hparts⟩
        apply hboth.imp
        rintro item part ⟨hplain, hprint⟩
        exact ih hprint hplain (by omega)
      refine ⟨⟨91, _, rfl, rfl, by norm_num⟩, fun rest _ => ?_⟩
      have hscan := scanContainer_intercalate hcomma (Or.inl rfl) hreads rest
      simp [scanOnce, hscan]
    | obj members =>
      obtain ⟨e, rfl⟩ : ∃ e, d' = e + 1 := ⟨d' - 1, by omega⟩
      simp only [Json.Plain] at hv
      obtain ⟨hsorted, hpairs, hmembers⟩ := hv
      simp only [Writer.print, print_order hsorted, bind_eq_ok, mapM_eq_ok, pure_eq_ok, Except.ok.injEq] at h
      obtain ⟨parts, hparts, rfl⟩ := h
      have hreads : List.Forall₂ (Reads (scanMember (scanOnce r e)) 125) members parts := by
        have hboth := (List.forall₂_and_left members parts).mpr ⟨hmembers, hparts⟩
        apply hboth.imp
        rintro ⟨key, value⟩ part ⟨⟨hkey, hplain⟩, printed, hprint, rfl⟩
        exact member_reads hcolon (scanString_quoted hkey) (ih hprint hplain (by omega))
      refine ⟨⟨123, _, rfl, rfl, by norm_num⟩, fun rest _ => ?_⟩
      have hscan := scanContainer_intercalate hcomma (Or.inr rfl) hreads rest
      simp [scanOnce, hscan, hpairs]

/-- A text that is read whatever comes behind it is read alone. -/
theorem Reads.loads {v : Json} {t : Text} (h : Reads (scanOnce r r.depth) 93 v t)
    (hmark : t.head? ≠ some 0xFEFF) : r.loads t = .ok v := by
  have hend : Stops [] := by simp [Stops]
  have hscan := h.scan [] hend
  have hskip := h.skip []
  rw [List.append_nil] at hscan hskip
  rw [Reader.loads, if_neg hmark, hskip, hscan]
  rfl

/-- `json.loads(json.dumps(v))` is `v`. -/
theorem loads_dumps (hcomma : Separator 44 w.comma) (hcolon : Separator 58 w.colon) {v : Json} {t : Text}
    (h : w.dumps v = .ok t) (hv : v.Plain r w w.depth) (hdepth : w.depth ≤ r.depth)
    (hmark : t.head? ≠ some 0xFEFF) : r.loads t = .ok v :=
  (print_reads hcomma hcolon h hv hdepth).loads hmark

end Values

section Bytes

variable {r : Reader} {w : Writer} {t : Text}

theorem Ascii.append {s : Text} (hs : Ascii s) (ht : Ascii t) : Ascii (s ++ t) := by
  intro c hc
  exact (List.mem_append.mp hc).elim (hs c) (ht c)

theorem Ascii.cons {c : ℕ} (hc : 0 < c ∧ c < 128) (ht : Ascii t) : Ascii (c :: t) := by
  intro d hd
  rcases List.mem_cons.mp hd with rfl | hd
  · exact hc
  · exact ht d hd

theorem Ascii.intercalate {parts : List Text} (ht : Ascii t) (hparts : ∀ part ∈ parts, Ascii part) :
    Ascii (t.intercalate parts) := by
  induction parts with
  | nil => simp [Ascii]
  | cons part parts ih =>
    have hrest := ih fun p hp => hparts p (List.mem_cons_of_mem _ hp)
    have hpart := hparts part List.mem_cons_self
    cases parts with
    | nil => simpa using hpart
    | cons next parts =>
      rw [List.intercalate_cons_cons]
      exact (hpart.append ht).append hrest

theorem hexDigit_ascii (n : ℕ) : 0 < hexDigit (n % 16) ∧ hexDigit (n % 16) < 128 := by
  have hn : n % 16 < 16 := Nat.mod_lt _ (by norm_num)
  unfold hexDigit
  split_ifs <;> omega

theorem escapeUnit_ascii (n : ℕ) : Ascii (escapeUnit n) := by
  intro c hc
  simp only [escapeUnit, List.mem_cons, List.not_mem_nil, or_false] at hc
  rcases hc with rfl | rfl | rfl | rfl | rfl | rfl
  · norm_num
  · norm_num
  all_goals exact hexDigit_ascii _

theorem escapeChar_ascii (c : ℕ) : Ascii (escapeChar true c) := by
  simp only [escapeChar, not_true_eq_false, false_or]
  split_ifs
  all_goals first | exact escapeUnit_ascii _ | exact (escapeUnit_ascii _).append (escapeUnit_ascii _) | skip
  all_goals
    intro d hd
    simp only [List.mem_cons, List.not_mem_nil, or_false] at hd
    omega

theorem quote_ascii (s : Text) : Ascii (quote true s) := by
  apply Ascii.cons (by norm_num)
  apply Ascii.append
  · intro c hc
    obtain ⟨d, -, hd⟩ := List.mem_flatMap.mp hc
    exact escapeChar_ascii d c hd
  · exact Ascii.cons (by norm_num) (by simp [Ascii])

theorem decimal_ascii (n : ℕ) : Ascii (decimal n) := by
  intro c hc
  have hdigit := isDigit_of_mem_decimal hc
  simp only [isDigit, Bool.and_eq_true, decide_eq_true_eq] at hdigit
  omega

/-- `P` holds of what the value is made of, `depth` containers inside. -/
def Json.Leaves (P : Json → Prop) : ℕ → Json → Prop
  | depth + 1, .arr items => ∀ item ∈ items, item.Leaves P depth
  | depth + 1, .obj members => ∀ m ∈ members, m.2.Leaves P depth
  | _, leaf => P leaf

theorem Json.Leaves.scalar {P : Json → Prop} {d : ℕ} {v : Json} (hscalar : v.hashable = true) :
    v.Leaves P d ↔ P v := by
  cases v with
  | null | bool | int | float | str => cases d <;> rfl
  | arr | obj => cases hscalar

theorem Json.Leaves.imp {P Q : Json → Prop} (himp : ∀ leaf, P leaf → Q leaf) {d : ℕ} {v : Json}
    (hv : v.Leaves P d) : v.Leaves Q d := by
  induction d generalizing v with
  | zero =>
    unfold Json.Leaves at hv ⊢
    exact himp v hv
  | succ d ih =>
    cases v with
    | null | bool | int | float | str => exact himp _ hv
    | arr items => exact fun item hitem => ih (hv item hitem)
    | obj members => exact fun m hm => ih (hv m hm)

/-- A float that is a number is written in ASCII. -/
def AsciiLeaf : Json → Prop
  | .float repr => nonFinite.lookup repr = none → Ascii repr
  | _ => True

theorem Json.Plain.leaves {d : ℕ} {v : Json} (hv : v.Plain r w d) : v.Leaves AsciiLeaf d := by
  induction d generalizing v with
  | zero =>
    cases v with
    | float repr =>
      simp only [Json.Plain] at hv
      exact fun _ => hv.2.1
    | null | bool | int | str | arr | obj => trivial
  | succ d ih =>
    cases v with
    | float repr =>
      simp only [Json.Plain] at hv
      exact fun _ => hv.2.1
    | null | bool | int | str => trivial
    | arr items =>
      simp only [Json.Plain] at hv
      exact fun item hitem => ih (hv item hitem)
    | obj members =>
      simp only [Json.Plain] at hv
      exact fun m hm => ih (hv.2.2 m hm).2

theorem printFloat_ascii {nan : Bool} {repr : Text} (h : printFloat nan repr = .ok t)
    (hrepr : AsciiLeaf (.float repr)) : Ascii t := by
  unfold printFloat at h
  split at h
  · next word hword =>
    obtain ⟨before, after, hsplit, -⟩ := List.lookup_eq_some_iff.mp hword
    have hmem : (repr, word) ∈ nonFinite := hsplit ▸ by simp
    have hwords : ∀ entry ∈ nonFinite, ∀ c ∈ entry.2, 0 < c ∧ c < 128 := by decide
    split_ifs at h
    obtain rfl := Except.ok.inj h
    exact hwords _ hmem
  · next hword =>
    obtain rfl := Except.ok.inj h
    exact hrepr hword

theorem printInt_ascii {n : ℤ} {t : Text} (h : printInt n = .ok t) : Ascii t := by
  simp only [printInt, throw_eq_error, pure_eq_ok, check_eq_ok, Except.ok.injEq] at h
  obtain ⟨-, rfl⟩ := h
  split_ifs
  · exact Ascii.cons (by norm_num) (decimal_ascii _)
  · exact decimal_ascii _

theorem scalar_ascii (hascii : w.ascii = true) {v : Json} (hscalar : v.hashable = true) {d : ℕ}
    (h : w.print d v = .ok t) (hv : v.Leaves AsciiLeaf d) : Ascii t := by
  cases v with
  | null =>
    simp only [Writer.print, pure_eq_ok, Except.ok.injEq] at h
    subst h
    unfold Ascii
    decide
  | bool b =>
    simp only [Writer.print, pure_eq_ok, Except.ok.injEq] at h
    subst h
    unfold Ascii
    cases b <;> decide
  | int n =>
    simp only [Writer.print] at h
    exact printInt_ascii h
  | float repr =>
    simp only [Writer.print] at h
    exact printFloat_ascii h ((Json.Leaves.scalar rfl).mp hv)
  | str s =>
    simp only [Writer.print, hascii, pure_eq_ok, Except.ok.injEq] at h
    subst h
    exact quote_ascii s
  | arr | obj => cases hscalar

theorem forall₂_right {α β : Type} {R : α → β → Prop} {P : β → Prop} {xs : List α} {ys : List β}
    (h : List.Forall₂ R xs ys) (hP : ∀ x ∈ xs, ∀ y, R x y → P y) : ∀ y ∈ ys, P y := by
  induction h with
  | nil => simp
  | cons hxy _ ih =>
    exact List.forall_mem_cons.mpr ⟨hP _ List.mem_cons_self _ hxy, ih fun x hx => hP x (List.mem_cons_of_mem _ hx)⟩

/-- The members that are printed are those of the object. -/
theorem mem_printed {members : List (Text × Json)} {m : Text × Json} :
    (m ∈ if w.sorted then sortMembers members else members) ↔ m ∈ members := by
  split_ifs
  · exact List.mem_insertionSort _
  · rfl

theorem print_ascii (hascii : w.ascii = true) (hcomma : Ascii w.comma) (hcolon : Ascii w.colon) {d : ℕ}
    {v : Json} (h : w.print d v = .ok t) (hv : v.Leaves AsciiLeaf d) : Ascii t := by
  induction d generalizing v t with
  | zero =>
    cases v with
    | null | bool | int | float | str => exact scalar_ascii hascii rfl h hv
    | arr | obj => simp [Writer.print] at h
  | succ d ih =>
    cases v with
    | null | bool | int | float | str => exact scalar_ascii hascii rfl h hv
    | arr items =>
      simp only [Writer.print, bind_eq_ok, mapM_eq_ok, pure_eq_ok, Except.ok.injEq] at h
      obtain ⟨parts, hparts, rfl⟩ := h
      have hall : ∀ part ∈ parts, Ascii part :=
        forall₂_right hparts fun item hitem part hprint => ih hprint (hv item hitem)
      exact (Ascii.cons (by norm_num) (hcomma.intercalate hall)).append (Ascii.cons (by norm_num) (by simp [Ascii]))
    | obj members =>
      simp only [Writer.print, bind_eq_ok, mapM_eq_ok, pure_eq_ok, Except.ok.injEq] at h
      obtain ⟨parts, hparts, rfl⟩ := h
      have hall : ∀ part ∈ parts, Ascii part := by
        refine forall₂_right hparts ?_
        rintro ⟨key, value⟩ hmember part ⟨printed, hprint, rfl⟩
        rw [hascii]
        exact ((quote_ascii key).append hcolon).append (ih hprint (hv _ (mem_printed.mp hmember)))
      exact (Ascii.cons (by norm_num) (hcomma.intercalate hall)).append (Ascii.cons (by norm_num) (by simp [Ascii]))

theorem utf8_ascii (ht : Ascii t) : t.flatMap utf8Char = t.map UInt8.ofNat := by
  induction t with
  | nil => rfl
  | cons c t ih =>
    have hc := ht c List.mem_cons_self
    rw [List.flatMap_cons, List.map_cons, ih fun d hd => ht d (List.mem_cons_of_mem _ hd), utf8Char,
      if_pos hc.2, List.singleton_append]

theorem encodeUtf8_ascii (ht : Ascii t) : encodeUtf8 t = some (t.map UInt8.ofNat) := by
  have hall : t.all isScalar = true := by
    rw [List.all_eq_true]
    intro c hc
    have h := ht c hc
    simp only [isScalar, isSurrogate, Bool.and_eq_true, decide_eq_true_eq, Bool.not_eq_true',
      Bool.and_eq_false_iff, decide_eq_false_iff_not]
    omega
  rw [encodeUtf8, if_pos hall, utf8_ascii ht]

/-- ASCII bytes are taken for UTF-8. -/
theorem decodeDetected_ascii (ht : Ascii t) : decodeDetected (t.map UInt8.ofNat) = some t := by
  have hdecode : decodeUtf8 true (t.map UInt8.ofNat) = some t := decodeUtf8_encodeUtf8 (encodeUtf8_ascii ht)
  have hbyte : ∀ b ∈ t.map UInt8.ofNat, 0 < b.toNat ∧ b.toNat < 128 := by
    intro b hb
    obtain ⟨c, hc, rfl⟩ := List.mem_map.mp hb
    have h := ht c hc
    rwa [toNat_ofNat_of_lt (by omega)]
  generalize t.map UInt8.ofNat = raw at hdecode hbyte
  have hzero (b : UInt8) (hb : b ∈ raw) : b ≠ 0 := by
    rintro rfl
    exact absurd (hbyte 0 hb).1 (by decide)
  have hmark (m : UInt8) (ms : Bytes) (hm : m = 0 ∨ 128 ≤ m.toNat) : ¬ m :: ms <+: raw := by
    intro hinitial
    have h := hbyte m (hinitial.subset List.mem_cons_self)
    rcases hm with rfl | hm
    · exact absurd h.1 (by decide)
    · omega
  unfold decodeDetected
  rw [if_neg (hmark _ _ (by decide)), if_neg (hmark _ _ (by decide)), if_neg (hmark _ _ (by decide)),
    if_neg (hmark _ _ (by decide)), if_neg (hmark _ _ (by decide))]
  split
  · rw [if_neg (hzero _ (by simp)), if_neg (hzero _ (by simp)), hdecode]
  · rw [if_neg (hzero _ (by simp)), if_neg (hzero _ (by simp)), hdecode]
  · exact hdecode

theorem separator_ascii {c : ℕ} (hc : 0 < c ∧ c < 128) {separator : Text} (h : Separator c separator) :
    Ascii separator := by
  obtain ⟨blanks, rfl, hblanks⟩ := h
  apply Ascii.cons hc
  intro b hb
  have hblank := hblanks b hb
  simp only [isBlank, Bool.or_eq_true, decide_eq_true_eq] at hblank
  omega

/-- `json.loads(json.dumps(v).encode())` is `v`, for a writer of ASCII. -/
theorem loadsBytes_dumpsBytes (hascii : w.ascii = true) (hcomma : Separator 44 w.comma)
    (hcolon : Separator 58 w.colon) {v : Json} {raw : Bytes} (h : w.dumpsBytes v = .ok raw)
    (hv : v.Plain r w w.depth) (hdepth : w.depth ≤ r.depth) : r.loadsBytes raw = .ok v := by
  obtain ⟨t, ht, hraw⟩ := bind_eq_ok.mp h
  have htext := print_ascii hascii (separator_ascii (by norm_num) hcomma)
    (separator_ascii (by norm_num) hcolon) ht hv.leaves
  rw [encodeUtf8_ascii htext] at hraw
  obtain rfl := Except.ok.inj hraw
  rw [Reader.loadsBytes, decodeDetected_ascii htext]
  refine loads_dumps hcomma hcolon ht hv hdepth ?_
  intro hhead
  have hmark := htext 0xFEFF (List.mem_of_mem_head? hhead)
  omega

end Bytes

end Python
