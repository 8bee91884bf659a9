import AzdSanta.Requests.Nesting

/-! The depth scanner bounds the recursion of the JSON reader, on every text, and measures the nesting
of a JSON text exactly. -/
namespace Requests
open Python Checks

/-- The places where a container reads an element, behind its opening bracket. -/
inductive Place {α : Type} (close : ℕ) (element : Scan α) (input : Text) : Text → Prop
  | first {c : ℕ} {s : Text} (h : skipBlanks input = c :: s) (hc : c ≠ close) : Place close element input (c :: s)
  | next {s rest tail : Text} {x : α} (h : Place close element input s) (hx : element s = .ok (x, rest))
      (hcomma : skipBlanks rest = 44 :: tail) : Place close element input (skipBlanks tail)

/-- A moment of `json.loads`: `scan_once` is called on a text, with room for so many containers and
with so many open. -/
inductive Moment (r : Reader) (input : Text) : ℕ → ℕ → Text → Prop
  | start : Moment r input r.depth 0 (skipBlanks input)
  | item {room k : ℕ} {tail s : Text} (h : Moment r input (room + 1) k (91 :: tail))
      (hs : Place 93 (scanOnce r room) tail s) : Moment r input room (k + 1) s
  | value {room k : ℕ} {tail s key after rest : Text} (h : Moment r input (room + 1) k (123 :: tail))
      (hs : Place 125 (scanMember (scanOnce r room)) tail (34 :: s)) (hkey : scanString s = .ok (key, after))
      (hcolon : skipBlanks after = 58 :: rest) : Moment r input room (k + 1) (skipBlanks rest)

/-- The containers open once the call has looked at its first character. -/
def opened (k : ℕ) : Text → ℕ
  | c :: _ => if c = 91 ∨ c = 123 then k + 1 else k
  | [] => k

section Places
variable {α : Type} {maximum depth close : ℕ} {element element' : Scan α} {input rest : Text}

theorem Place.passes {s : Text} (hs : Place close element input s)
    (helement : ∀ s x rest, element s = .ok (x, rest) → Passes maximum depth s → Passes maximum depth rest)
    (h : Passes maximum depth input) : Passes maximum depth s := by
  induction hs with
  | first hskip =>
    rw [← hskip]
    exact (passes_skipBlanks input).mpr h
  | next _ hx hcomma ih =>
    have hrest := (passes_skipBlanks _).mpr (helement _ _ _ hx ih)
    rw [hcomma, passes_cons (by unfold IsNeutral; decide)] at hrest
    exact (passes_skipBlanks _).mpr hrest

/-- A container that was read ended behind one of its elements, unless it is empty. -/
theorem scanElements_last {n : ℕ} {s : Text} {xs : List α} (hs : Place close element input s)
    (h : scanElements close element n s = .ok (xs, rest)) :
    ∃ s x after, Place close element input s ∧ element s = .ok (x, after) ∧ skipBlanks after = close :: rest := by
  induction n generalizing s xs with
  | zero => cases h
  | succ n ih =>
    rw [scanElements] at h
    obtain ⟨⟨x, after⟩, hx, h⟩ := bind_eq_ok.mp h
    dsimp only at h
    split at h
    · next c tail hskip =>
      split_ifs at h with hend hcomma
      · obtain ⟨rfl, rfl⟩ := Prod.mk.inj (Except.ok.inj h)
        exact ⟨s, x, after, hs, hx, hend ▸ hskip⟩
      · obtain ⟨⟨ys, after'⟩, hys, h⟩ := bind_eq_ok.mp h
        obtain ⟨rfl, rfl⟩ := Prod.mk.inj (Except.ok.inj h)
        exact ih (.next hs hx (hcomma ▸ hskip)) hys
    · cases h

theorem scanContainer_last {xs : List α} (h : scanContainer close element input = .ok (xs, rest)) :
    skipBlanks input = close :: rest ∨
      ∃ s x after, Place close element input s ∧ element s = .ok (x, after) ∧ skipBlanks after = close :: rest := by
  unfold scanContainer at h
  split at h
  · next c tail hskip =>
    split_ifs at h with hend
    · obtain ⟨rfl, rfl⟩ := Prod.mk.inj (Except.ok.inj h)
      exact Or.inl (hend ▸ hskip)
    · exact Or.inr (scanElements_last (.first hskip hend) h)
  · cases h

theorem scanContainer_forward {xs : List α} (hclose : close = 93 ∨ close = 125)
    (helement : ∀ s x rest, element s = .ok (x, rest) → Passes maximum (depth + 1) s → Passes maximum (depth + 1) rest)
    (hscan : scanContainer close element input = .ok (xs, rest)) (h : Passes maximum (depth + 1) input) :
    Passes maximum depth rest := by
  rcases scanContainer_last hscan with hempty | ⟨s, x, after, hs, hx, hend⟩
  · have hskip := (passes_skipBlanks input).mpr h
    rwa [hempty, passes_close hclose] at hskip
  · have hskip := (passes_skipBlanks after).mpr (helement s x after hx (hs.passes helement h))
    rwa [hend, passes_close hclose] at hskip

theorem scanElements_congr (hsame : ∀ s, Place close element input s → element s = element' s) {n : ℕ} {s : Text}
    (hs : Place close element input s) : scanElements close element n s = scanElements close element' n s := by
  induction n generalizing s with
  | zero => rfl
  | succ n ih =>
    rw [scanElements, scanElements, ← hsame s hs]
    cases hx : element s with
    | error e => rfl
    | ok read =>
      obtain ⟨x, after⟩ := read
      rw [ok_bind, ok_bind]
      dsimp only
      split
      · next c tail hskip =>
        by_cases hcomma : c = 44
        · rw [ih (.next hs hx (hcomma ▸ hskip))]
        · rw [if_neg hcomma, if_neg hcomma]
      · rfl

/-- Readers that agree at the places of a container read it in the same way. -/
theorem scanContainer_congr (hsame : ∀ s, Place close element input s → element s = element' s) :
    scanContainer close element input = scanContainer close element' input := by
  unfold scanContainer
  split
  · next c tail hskip =>
    split_ifs with hend
    · rfl
    · exact scanElements_congr hsame (.first hskip hend)
  · rfl

theorem scanMember_forward {value : Scan Json} {m : Text × Json}
    (hvalue : ∀ s v rest, value s = .ok (v, rest) → Passes maximum depth s → Passes maximum depth rest)
    (hscan : scanMember value input = .ok (m, rest)) (h : Passes maximum depth input) : Passes maximum depth rest := by
  unfold scanMember at hscan
  split at hscan
  · obtain ⟨⟨key, after⟩, hkey, hscan⟩ := bind_eq_ok.mp hscan
    dsimp only at hscan
    split at hscan
    · next tail hskip =>
      obtain ⟨⟨v, after'⟩, hv, hscan⟩ := bind_eq_ok.mp hscan
      obtain ⟨rfl, rfl⟩ := Prod.mk.inj (Except.ok.inj hscan)
      have hcolon := (passes_skipBlanks after).mpr ((scanString_passes hkey).mp h)
      rw [hskip, passes_cons (by unfold IsNeutral; decide)] at hcolon
      exact hvalue _ _ _ hv ((passes_skipBlanks tail).mpr hcolon)
    · cases hscan
  · cases hscan

theorem scanMember_congr {value value' : Scan Json}
    (hsame : ∀ s key after rest, input = 34 :: s → scanString s = .ok (key, after) → skipBlanks after = 58 :: rest →
      value (skipBlanks rest) = value' (skipBlanks rest)) : scanMember value input = scanMember value' input := by
  unfold scanMember
  split
  · next s =>
    cases hkey : scanString s with
    | error e => rfl
    | ok read =>
      obtain ⟨key, after⟩ := read
      rw [ok_bind, ok_bind]
      dsimp only
      split
      · next rest hskip => rw [hsame s key after rest rfl hkey hskip]
      · rfl
  · rfl

end Places

section Reading
variable {maximum : ℕ} {r : Reader}

/-- Behind a value the scanner stands where it stood before. -/
theorem scanOnce_forward {d depth : ℕ} {input rest : Text} {v : Json} (hscan : scanOnce r d input = .ok (v, rest))
    (h : Passes maximum depth input) : Passes maximum depth rest := by
  induction d using Nat.strong_induction_on generalizing input v rest depth with
  | _ d ih =>
    rcases scanOnce_eq_ok.mp hscan with ⟨tail, s, rfl, hs, rfl⟩ | ⟨j, tail, items, rfl, rfl, hitems, rfl⟩ |
      ⟨j, tail, pairs, members, rfl, rfl, hpairs, hmembers, rfl⟩ | ⟨c, tail, rfl, -, -, -, hword⟩
    · exact (scanString_passes hs).mp h
    · have hitem : ∀ s x rest, scanOnce r j s = .ok (x, rest) → Passes maximum (depth + 1) s →
          Passes maximum (depth + 1) rest := fun _ _ _ hx => ih j (Nat.lt_succ_self j) hx
      exact scanContainer_forward (Or.inl rfl) hitem hitems ((passes_open (Or.inl rfl)).mp h).2
    · have hvalue : ∀ s x rest, scanOnce r j s = .ok (x, rest) → Passes maximum (depth + 1) s →
          Passes maximum (depth + 1) rest := fun _ _ _ hx => ih j (Nat.lt_succ_self j) hx
      exact scanContainer_forward (Or.inr rfl) (fun _ _ _ hx => scanMember_forward hvalue hx) hpairs
        ((passes_open (Or.inr rfl)).mp h).2
    · obtain ⟨s, hs, hneutral⟩ := scanWord_neutral hword
      rw [hs] at h
      exact (passes_append hneutral).mp h

/-- The scanner's count is the reader's, at every moment. -/
theorem Moment.passes {input s : Text} {room k : ℕ} (hs : Moment r input room k s) (h : Passes maximum 0 input) :
    k ≤ maximum ∧ Passes maximum k s := by
  induction hs with
  | start => exact ⟨Nat.zero_le _, (passes_skipBlanks input).mpr h⟩
  | item _ hplace ih =>
    obtain ⟨hroom, hinside⟩ := (passes_open (Or.inl rfl)).mp ih.2
    exact ⟨hroom, hplace.passes (fun _ _ _ hx => scanOnce_forward hx) hinside⟩
  | value _ hplace hkey hcolon ih =>
    obtain ⟨hroom, hinside⟩ := (passes_open (Or.inr rfl)).mp ih.2
    have hmember := hplace.passes (fun _ _ _ hx => scanMember_forward (fun _ _ _ hv => scanOnce_forward hv) hx) hinside
    have hafter := (passes_skipBlanks _).mpr ((scanString_passes hkey).mp hmember)
    rw [hcolon, passes_cons (by unfold IsNeutral; decide)] at hafter
    exact ⟨hroom, (passes_skipBlanks _).mpr hafter⟩

theorem Moment.opened_le {input s : Text} {room k : ℕ} (hs : Moment r input room k s) (h : Passes maximum 0 input) :
    opened k s ≤ maximum := by
  obtain ⟨hk, hpasses⟩ := hs.passes h
  unfold opened
  split
  · split_ifs with hopen
    · exact ((passes_open hopen).mp hpasses).1
    · exact hk
  · exact hk

theorem scanOnce_quote (d : ℕ) (tail : Text) : scanOnce r d (34 :: tail) = (do
    let (s, rest) ← scanString tail
    return (.str s, rest)) := by
  cases d with
  | zero => rfl
  | succ d => rfl

/-- A reader makes no use of more room than the scanner leaves. -/
theorem scanOnce_room {d depth k : ℕ} {input : Text} (hk : depth + k = maximum) (hd : k ≤ d)
    (h : Passes maximum depth input) : scanOnce r d input = scanOnce r k input := by
  induction k generalizing d depth input with
  | zero =>
    rcases input with _ | ⟨c, tail⟩
    · cases d with
      | zero => rfl
      | succ d => rfl
    · by_cases hquote : c = 34
      · rw [hquote, scanOnce_quote, scanOnce_quote]
      · by_cases hopen : c = 91 ∨ c = 123
        · have hroom := ((passes_open hopen).mp h).1
          omega
        · push Not at hopen
          rw [scanOnce_word hquote hopen.1 hopen.2, scanOnce_word hquote hopen.1 hopen.2]
  | succ k ih =>
    obtain ⟨d, rfl⟩ : ∃ d', d = d' + 1 := ⟨d - 1, by omega⟩
    have hvalue (s : Text) (hs : Passes maximum (depth + 1) s) : scanOnce r d s = scanOnce r k s :=
      ih (by omega) (by omega) hs
    rcases input with _ | ⟨c, tail⟩
    · rfl
    · by_cases hquote : c = 34
      · rw [hquote, scanOnce_quote, scanOnce_quote]
      · by_cases hlist : c = 91
        · subst hlist
          have hinside := ((passes_open (Or.inl rfl)).mp h).2
          have hcontainer : scanContainer 93 (scanOnce r d) tail = scanContainer 93 (scanOnce r k) tail :=
            scanContainer_congr fun s hs => hvalue s (hs.passes (fun _ _ _ hx => scanOnce_forward hx) hinside)
          simp only [scanOnce, if_true, hcontainer]
        · by_cases hobject : c = 123
          · subst hobject
            have hinside := ((passes_open (Or.inr rfl)).mp h).2
            have hcontainer : scanContainer 125 (scanMember (scanOnce r d)) tail =
                scanContainer 125 (scanMember (scanOnce r k)) tail := by
              apply scanContainer_congr
              intro s hs
              have hmember := hs.passes
                (fun _ _ _ hx => scanMember_forward (fun _ _ _ hv => scanOnce_forward hv) hx) hinside
              apply scanMember_congr
              rintro s key after rest rfl hkey hcolon
              have hafter := (passes_skipBlanks _).mpr ((scanString_passes hkey).mp hmember)
              rw [hcolon, passes_cons (by unfold IsNeutral; decide)] at hafter
              exact hvalue _ ((passes_skipBlanks _).mpr hafter)
            simp only [scanOnce, if_neg hlist, if_true, hcontainer]
          · rw [scanOnce_word hquote hlist hobject, scanOnce_word hquote hlist hobject]

theorem scanOnce_depth (n d : ℕ) (input : Text) : scanOnce { r with depth := n } d input = scanOnce r d input := by
  have hword : scanWord { r with depth := n } = scanWord r := rfl
  induction d generalizing input with
  | zero =>
    rcases input with _ | ⟨c, tail⟩
    · rfl
    · by_cases hquote : c = 34
      · rw [hquote, scanOnce_quote, scanOnce_quote]
      · rw [scanOnce, scanOnce, hword]
        · exact hquote
        · exact hquote
  | succ d ih =>
    have hsame : scanOnce { r with depth := n } d = scanOnce r d := funext ih
    rcases input with _ | ⟨c, tail⟩
    · rfl
    · by_cases hquote : c = 34
      · rw [hquote, scanOnce_quote, scanOnce_quote]
      · rw [scanOnce, scanOnce, hword, hsame]
        · exact hquote
        · exact hquote

theorem loads_room {input : Text} (h : Passes maximum 0 input) (hr : maximum ≤ r.depth) :
    r.loads input = { r with depth := maximum }.loads input := by
  have hskip := (passes_skipBlanks input).mpr h
  simp only [Reader.loads, scanOnce_depth, scanOnce_room (Nat.zero_add maximum) hr hskip]

end Reading

section Grammar

/-- Digits, at least one. -/
def IsDigits (s : Text) : Prop := s ≠ [] ∧ ∀ c ∈ s, isDigit c = true

/-- A number of the JSON grammar. -/
structure IsNumber (s : Text) : Prop where
  parts : ∃ sign whole fraction exponent, s = sign ++ whole ++ fraction ++ exponent ∧ (sign = [] ∨ sign = [45]) ∧
    (whole = [48] ∨ (IsDigits whole ∧ whole.head? ≠ some 48)) ∧
    (fraction = [] ∨ ∃ digits, fraction = 46 :: digits ∧ IsDigits digits) ∧
    (exponent = [] ∨ ∃ e mark digits, exponent = e :: mark ++ digits ∧ (e = 101 ∨ e = 69) ∧
      (mark = [] ∨ mark = [43] ∨ mark = [45]) ∧ IsDigits digits)

/-- What may stand between the quotes of a string. -/
inductive IsChars : Text → Prop
  | nil : IsChars []
  | plain {c : ℕ} {s : Text} (hc : 32 ≤ c) (hquote : c ≠ 34) (hslash : c ≠ 92) (h : IsChars s) : IsChars (c :: s)
  | escape {c : ℕ} {s : Text} (hc : (shortEscape c).isSome) (h : IsChars s) : IsChars (92 :: c :: s)
  | unit {digits s : Text} (hsize : digits.length = 4) (hdigits : ∀ c ∈ digits, (hexValue c).isSome)
      (h : IsChars s) : IsChars (92 :: 117 :: (digits ++ s))

def IsBlanks (s : Text) : Prop := ∀ c ∈ s, isBlank c = true

/-- The parts of a JSON text. -/
inductive Part where
  | value
  | element
  | elements
  | member
  | members

/-- The JSON grammar, with the number of containers inside each other. -/
inductive Written : Part → Text → ℕ → Prop
  | word {s : Text} (hs : s = text "null" ∨ s = text "true" ∨ s = text "false") : Written .value s 0
  | number {s : Text} (hs : IsNumber s) : Written .value s 0
  | string {s : Text} (hs : IsChars s) : Written .value (34 :: (s ++ [34])) 0
  | emptyArray {b : Text} (hb : IsBlanks b) : Written .value (91 :: (b ++ [93])) 1
  | array {s : Text} {n : ℕ} (h : Written .elements s n) : Written .value (91 :: (s ++ [93])) (n + 1)
  | emptyObject {b : Text} (hb : IsBlanks b) : Written .value (123 :: (b ++ [125])) 1
  | object {s : Text} {n : ℕ} (h : Written .members s n) : Written .value (123 :: (s ++ [125])) (n + 1)
  | element {b s b' : Text} {n : ℕ} (hb : IsBlanks b) (h : Written .value s n) (hb' : IsBlanks b') :
      Written .element (b ++ (s ++ b')) n
  | lastElement {s : Text} {n : ℕ} (h : Written .element s n) : Written .elements s n
  | elements {s t : Text} {n k : ℕ} (h : Written .element s n) (ht : Written .elements t k) :
      Written .elements (s ++ 44 :: t) (max n k)
  | member {b key b' s : Text} {n : ℕ} (hb : IsBlanks b) (hkey : IsChars key) (hb' : IsBlanks b')
      (h : Written .element s n) : Written .member (b ++ 34 :: (key ++ 34 :: (b' ++ 58 :: s))) n
  | lastMember {s : Text} {n : ℕ} (h : Written .member s n) : Written .members s n
  | members {s t : Text} {n k : ℕ} (h : Written .member s n) (ht : Written .members t k) :
      Written .members (s ++ 44 :: t) (max n k)

variable {maximum depth : ℕ} {rest : Text}

theorem isBlanks_neutral {b : Text} (hb : IsBlanks b) : ∀ c ∈ b, IsNeutral c := by
  intro c hc
  have hblank := hb c hc
  simp only [isBlank, Bool.or_eq_true, decide_eq_true_eq] at hblank
  unfold IsNeutral
  omega

theorem isDigits_neutral {s : Text} (hs : IsDigits s) : ∀ c ∈ s, IsNeutral c :=
  fun c hc => isDigit_neutral (hs.2 c hc)

theorem isNumber_neutral {s : Text} (hs : IsNumber s) : ∀ c ∈ s, IsNeutral c := by
  obtain ⟨sign, whole, fraction, exponent, rfl, hsign, hwhole, hfraction, hexponent⟩ := hs.parts
  have hone (c : ℕ) (hc : IsNeutral c) : ∀ d ∈ [c], IsNeutral d := List.forall_mem_singleton.mpr hc
  simp only [List.forall_mem_append]
  refine ⟨⟨⟨?_, ?_⟩, ?_⟩, ?_⟩
  · rcases hsign with rfl | rfl
    · simp
    · exact hone 45 (by unfold IsNeutral; decide)
  · rcases hwhole with rfl | ⟨hwhole, -⟩
    · exact hone 48 (by unfold IsNeutral; decide)
    · exact isDigits_neutral hwhole
  · rcases hfraction with rfl | ⟨digits, rfl, hdigits⟩
    · simp
    · exact List.forall_mem_cons.mpr ⟨by unfold IsNeutral; decide, isDigits_neutral hdigits⟩
  · rcases hexponent with rfl | ⟨e, mark, digits, rfl, he, hmark, hdigits⟩
    · simp
    · simp only [List.cons_append, List.forall_mem_cons, List.forall_mem_append]
      refine ⟨?_, ?_, isDigits_neutral hdigits⟩
      · unfold IsNeutral
        omega
      · rcases hmark with rfl | rfl | rfl
        · simp
        · exact hone 43 (by unfold IsNeutral; decide)
        · exact hone 45 (by unfold IsNeutral; decide)

/-- The scanner comes out of a string behind its closing quote. -/
theorem isChars_passes {s : Text} (hs : IsChars s) :
    checkDepth maximum ⟨depth, true, false⟩ (s ++ 34 :: rest) = checkDepth maximum ⟨depth, false, false⟩ rest := by
  induction hs with
  | nil => simp [checkDepth]
  | plain _ hquote hslash _ ih => rw [List.cons_append, quoted_cons hquote hslash, ih]
  | escape _ _ ih => rw [List.cons_append, List.cons_append, quoted_escape, ih]
  | @unit digits s _ hdigits _ ih =>
    have hplain (digits : Text) (hdigits : ∀ c ∈ digits, (hexValue c).isSome) (t : Text) :
        checkDepth maximum ⟨depth, true, false⟩ (digits ++ t) = checkDepth maximum ⟨depth, true, false⟩ t := by
      induction digits with
      | nil => rfl
      | cons c digits ih =>
        obtain ⟨hc, hdigits⟩ := List.forall_mem_cons.mp hdigits
        obtain ⟨n, hn⟩ := Option.isSome_iff_exists.mp hc
        rw [List.cons_append, quoted_cons (hexValue_plain hn).1 (hexValue_plain hn).2]
        exact ih hdigits
    rw [List.cons_append, List.cons_append, quoted_escape, List.append_assoc, hplain digits hdigits, ih]

theorem quoted_passes {s : Text} (hs : IsChars s) :
    Passes maximum depth (34 :: (s ++ 34 :: rest)) ↔ Passes maximum depth rest := by
  unfold Passes
  rw [checkDepth]
  simp only [Bool.false_eq_true, if_false, if_true]
  rw [isChars_passes hs]

/-- The scanner gets over a part of a JSON text when it nests no deeper than what is left. -/
theorem Written.passes {part : Part} {s : Text} {n : ℕ} (h : Written part s n) (hdepth : depth ≤ maximum) :
    Passes maximum depth (s ++ rest) ↔ depth + n ≤ maximum ∧ Passes maximum depth rest := by
  induction h generalizing depth rest with
  | word hs =>
    have hneutral : ∀ word ∈ [text "null", text "true", text "false"], ∀ c ∈ word, IsNeutral c := by
      unfold IsNeutral
      decide
    rw [passes_append (hneutral _ (by simpa using hs))]
    exact (and_iff_right hdepth).symm
  | number hs =>
    rw [passes_append (isNumber_neutral hs)]
    exact (and_iff_right hdepth).symm
  | string hs =>
    rw [List.cons_append, List.append_assoc, List.singleton_append, quoted_passes hs]
    exact (and_iff_right hdepth).symm
  | emptyArray hb =>
    rw [List.cons_append, List.append_assoc, List.singleton_append, passes_open (Or.inl rfl),
      passes_append (isBlanks_neutral hb), passes_close (Or.inl rfl)]
  | array _ ih =>
    rw [List.cons_append, List.append_assoc, List.singleton_append, passes_open (Or.inl rfl)]
    by_cases hroom : depth + 1 ≤ maximum
    · rw [ih hroom, passes_close (Or.inl rfl), and_iff_right hroom, Nat.add_right_comm, Nat.add_assoc]
    · exact iff_of_false (fun h => hroom h.1) fun h => by omega
  | emptyObject hb =>
    rw [List.cons_append, List.append_assoc, List.singleton_append, passes_open (Or.inr rfl),
      passes_append (isBlanks_neutral hb), passes_close (Or.inr rfl)]
  | object _ ih =>
    rw [List.cons_append, List.append_assoc, List.singleton_append, passes_open (Or.inr rfl)]
    by_cases hroom : depth + 1 ≤ maximum
    · rw [ih hroom, passes_close (Or.inr rfl), and_iff_right hroom, Nat.add_right_comm, Nat.add_assoc]
    · exact iff_of_false (fun h => hroom h.1) fun h => by omega
  | element hb _ hb' ih =>
    rw [List.append_assoc, passes_append (isBlanks_neutral hb), List.append_assoc, ih hdepth,
      passes_append (isBlanks_neutral hb')]
  | lastElement _ ih => exact ih hdepth
  | elements _ _ ih ih' =>
    rw [List.append_assoc, ih hdepth, List.cons_append, passes_cons (by unfold IsNeutral; decide), ih' hdepth,
      ← and_assoc]
    apply and_congr_left'
    omega
  | member hb hkey hb' _ ih =>
    rw [List.append_assoc, passes_append (isBlanks_neutral hb), List.cons_append, List.append_assoc, List.cons_append,
      quoted_passes hkey, List.append_assoc, passes_append (isBlanks_neutral hb'), List.cons_append,
      passes_cons (by unfold IsNeutral; decide), ih hdepth]
  | lastMember _ ih => exact ih hdepth
  | members _ _ ih ih' =>
    rw [List.append_assoc, ih hdepth, List.cons_append, passes_cons (by unfold IsNeutral; decide), ih' hdepth,
      ← and_assoc]
    apply and_congr_left'
    omega

end Grammar

theorem checkDepth_dichotomy (maximum : ℕ) (c : Cursor) (input : Text) : checkDepth maximum c input = .ok () ∨
    checkDepth maximum c input = .error (.rejected 400 "JSON nesting limit exceeded") := by
  fun_induction checkDepth maximum c input with
  | case1 => exact Or.inl rfl
  | case7 => exact Or.inr rfl
  | case2 | case3 | case4 | case5 | case6 | case8 | case9 | case10 => assumption

/-- When the scan of a text does not raise, a reader has never more than `maximum` containers open,
whatever the text is, and reads it as if there were no room for more. On a JSON text the scan raises
exactly when the containers nest deeper than `maximum`. -/
theorem depth_scan_bounds (maximum : ℕ) (input : Text) :
    (checkDepth maximum ⟨0, false, false⟩ input = .ok () → ∀ r : Reader,
      (∀ room k s, Moment r input room k s → opened k s ≤ maximum) ∧
      (maximum ≤ r.depth → r.loads input = { r with depth := maximum }.loads input)) ∧
    ∀ n, Written .element input n →
      (checkDepth maximum ⟨0, false, false⟩ input = .error (.rejected 400 "JSON nesting limit exceeded") ↔
        maximum < n) := by
  constructor
  · intro h r
    exact ⟨fun room k s hs => hs.opened_le h, loads_room h⟩
  · intro n hn
    have hpasses : Passes maximum 0 (input ++ []) ↔ 0 + n ≤ maximum ∧ Passes maximum 0 [] :=
      hn.passes (Nat.zero_le maximum)
    rw [List.append_nil, Nat.zero_add] at hpasses
    have hscan : checkDepth maximum ⟨0, false, false⟩ input = .ok () ↔ n ≤ maximum :=
      hpasses.trans (and_iff_left rfl)
    rcases checkDepth_dichotomy maximum ⟨0, false, false⟩ input with hok | herror
    · rw [hok]
      exact iff_of_false (by simp) (not_lt.mpr (hscan.mp hok))
    · rw [herror]
      rw [herror] at hscan
      exact iff_of_true rfl (not_le.mp fun hle => by cases hscan.mpr hle)

/-- A text that is no JSON, and one that nests two containers. -/
theorem depth_scan_bounds_sample :
    (∀ (r : Reader) room k s, Moment r [93, 93, 125, 91, 91] room k s → opened k s ≤ 1) ∧
      checkDepth 1 ⟨0, false, false⟩ [91, 123, 125, 93] = .error (.rejected 400 "JSON nesting limit exceeded") := by
  have hblanks : IsBlanks [] := List.forall_mem_nil _
  have hinside : Written .element [123, 125] 1 := .element hblanks (.emptyObject hblanks) hblanks
  have hwritten : Written .element [91, 123, 125, 93] 2 := .element hblanks (.array (.lastElement hinside)) hblanks
  constructor
  · intro r
    exact ((depth_scan_bounds 1 [93, 93, 125, 91, 91]).1 (by decide +kernel) r).1
  · exact ((depth_scan_bounds 1 [91, 123, 125, 93]).2 2 hwritten).mpr (by decide)

end Requests
