import Mathlib.Data.List.Sort
import Mathlib.Data.List.Perm.Basic
import Mathlib.Order.Lattice
import AzdSanta.Common.Checks
import AzdSanta.Common.Sorting
import AzdSanta.PowerShell.Utf16

/-! `CandidateJson.Canonical`: a JSON element with the members of its objects sorted and its strings
escaped in one way. -/
namespace Candidates
open Python PowerShell Checks

/-- A piece of a string token. -/
inductive Piece where
  | plain (c : ℕ)
  /-- A two-character escape, by the character it stands for. -/
  | short (c : ℕ)
  /-- The escape of a code unit. -/
  | unit (u : ℕ)
  deriving DecidableEq

/-- The code units that a piece stands for. -/
def Piece.units : Piece → List ℕ
  | .plain c => unitsOf c
  | .short c => [c]
  | .unit u => [u]

/-- `GetString` and `Name`. -/
def unescape (raw : List Piece) : List ℕ := raw.flatMap Piece.units

def isNumberChar (c : ℕ) : Bool := isDigit c || c = 43 || c = 45 || c = 46 || c = 69 || c = 101

/-- A number token. -/
@[ext] structure Number where
  raw : Text
  nonempty : raw ≠ []
  chars : ∀ c ∈ raw, isNumberChar c = true

/-- `JsonElement`, as it was written; `blanks` is the whitespace between the tokens of a container. -/
inductive Element where
  | null
  | true
  | false
  | number (token : Number)
  | string (raw : List Piece)
  | array (blanks : List Text) (items : List Element)
  | object (blanks : List Text) (members : List (List Piece × Element))

/-- The character after the backslash in the short escapes of `JavaScriptEncoder.Default`. -/
def shortForm (u : ℕ) : Option ℕ :=
  if u = 8 then some 98
  else if u = 9 then some 116
  else if u = 10 then some 110
  else if u = 12 then some 102
  else if u = 13 then some 114
  else if u = 92 then some 92
  else none

/-- What `JavaScriptEncoder.Default` leaves as it is: printable ASCII that means nothing in HTML. -/
def isAllowed (u : ℕ) : Bool := 32 ≤ u && u < 127 && !([34, 38, 39, 43, 60, 62, 92, 96].contains u)

def upperHex (n : ℕ) : ℕ := if n < 10 then 48 + n else 55 + n

/-- One code unit of a string value. -/
def encodeUnit (u : ℕ) : Text :=
  if isAllowed u then [u]
  else match shortForm u with
    | some e => [92, e]
    | none => [92, 117, upperHex (u / 4096 % 16), upperHex (u / 256 % 16), upperHex (u / 16 % 16), upperHex (u % 16)]

/-- `WriteStringValue` and the name of `WritePropertyName`. -/
def quote (s : List ℕ) : Text := 34 :: (s.flatMap encodeUnit ++ [34])

/-- Values of one container; the writer puts a comma before each but the first. -/
def joined : List Text → Text
  | [] => []
  | part :: parts => part ++ parts.flatMap (44 :: ·)

inductive Failure where
  /-- `Duplicate JSON property name.` -/
  | duplicate
  /-- `Cannot read incomplete UTF-16 JSON text as string with missing low surrogate.` -/
  | surrogate
  /-- The writer has reached its `MaxDepth`. -/
  | tooDeep
  deriving DecidableEq

/-- The loop over the property names of an object, with the names it has seen. -/
def checkNames (names : List (List ℕ)) : List (List ℕ) → Except Failure Unit
  | [] => pure ()
  | name :: rest =>
    if isWellFormed name then
      if name ∈ names then throw .duplicate else checkNames (name :: names) rest
    else throw .surrogate

/-- `OrderBy(p => p.Name, StringComparer.Ordinal)`. -/
def orderByName (members : List (List Piece × Element)) : List (List Piece × Element) :=
  members.insertionSort fun m m' => unescape m.1 ≤ unescape m'.1

/-- `CandidateJson.Write`, with room for `room` further containers in the writer. -/
def write : ℕ → Element → Except Failure Text
  | _, .null => pure (text "null")
  | _, .true => pure (text "true")
  | _, .false => pure (text "false")
  | _, .number token => pure token.raw
  | _, .string raw => if isWellFormed (unescape raw) then pure (quote (unescape raw)) else throw .surrogate
  | 0, .array _ _ => throw .tooDeep
  | 0, .object _ members => do
    checkNames [] (members.map fun m => unescape m.1)
    throw .tooDeep
  | room + 1, .array _ items => do
    let parts ← items.mapM (write room)
    return 91 :: (joined parts ++ [93])
  | room + 1, .object _ members => do
    checkNames [] (members.map fun m => unescape m.1)
    let parts ← (orderByName members).mapM fun m => do
      let value ← write room m.2
      return quote (unescape m.1) ++ 58 :: value
    return 123 :: (joined parts ++ [125])

/-- `CandidateJson.Canonical`; the depth of a `Utf8JsonWriter` is 1000 by default. -/
def canonical (e : Element) : Except Failure Bytes := do
  let written ← write 1000 e
  return written.map UInt8.ofNat

/-- A string without a lone surrogate. -/
def WellFormed (s : List ℕ) : Prop := ∃ t, (∀ c ∈ t, isScalar c = true) ∧ s = utf16 t

/-- What a parser with `MaxDepth` `n` returns for a text with well-formed strings. -/
inductive Parsed : ℕ → Element → Prop
  | null {n : ℕ} : Parsed n .null
  | true {n : ℕ} : Parsed n .true
  | false {n : ℕ} : Parsed n .false
  | number {n : ℕ} {token : Number} : Parsed n (.number token)
  | string {n : ℕ} {raw : List Piece} (hraw : WellFormed (unescape raw)) : Parsed n (.string raw)
  | array {n : ℕ} {blanks : List Text} {items : List Element} (hitems : ∀ e ∈ items, Parsed n e) :
      Parsed (n + 1) (.array blanks items)
  | object {n : ℕ} {blanks : List Text} {members : List (List Piece × Element)}
      (hnames : ∀ m ∈ members, WellFormed (unescape m.1)) (hvalues : ∀ m ∈ members, Parsed n m.2) :
      Parsed (n + 1) (.object blanks members)

/-- Some object, at any depth, has two members of one name. -/
inductive HasDuplicate : Element → Prop
  | here {blanks : List Text} {members : List (List Piece × Element)}
      (h : ¬ (members.map fun m => unescape m.1).Nodup) : HasDuplicate (.object blanks members)
  | item {blanks : List Text} {items : List Element} {e : Element} (he : e ∈ items) (h : HasDuplicate e) :
      HasDuplicate (.array blanks items)
  | member {blanks : List Text} {members : List (List Piece × Element)} {m : List Piece × Element}
      (hm : m ∈ members) (h : HasDuplicate m.2) : HasDuplicate (.object blanks members)

/-- Equality up to the order of members, whitespace and the escaping of strings. -/
inductive Same : Element → Element → Prop
  | null : Same .null .null
  | true : Same .true .true
  | false : Same .false .false
  | number (token : Number) : Same (.number token) (.number token)
  | string {raw raw' : List Piece} (h : unescape raw = unescape raw') : Same (.string raw) (.string raw')
  | array {blanks blanks' : List Text} {items items' : List Element} (hlength : items.length = items'.length)
      (h : ∀ p ∈ items.zip items', Same p.1 p.2) : Same (.array blanks items) (.array blanks' items')
  | object {blanks blanks' : List Text} {members members' reordered : List (List Piece × Element)}
      (hperm : reordered.Perm members') (hlength : members.length = reordered.length)
      (hnames : ∀ p ∈ members.zip reordered, unescape p.1.1 = unescape p.2.1)
      (h : ∀ p ∈ members.zip reordered, Same p.1.2 p.2.2) : Same (.object blanks members) (.object blanks' members')

section Strings

theorem upperHex_injective {m n : ℕ} (hm : m < 16) (hn : n < 16) (h : upperHex m = upperHex n) : m = n := by
  unfold upperHex at h
  split_ifs at h <;> omega

theorem shortForm_injective {u v e : ℕ} (hu : shortForm u = some e) (hv : shortForm v = some e) : u = v := by
  unfold shortForm at hu hv
  split_ifs at hu hv <;> simp only [Option.some.injEq] at hu hv <;> omega

theorem shortForm_ne {u e : ℕ} (hu : shortForm u = some e) : e ≠ 117 := by
  rintro rfl
  unfold shortForm at hu
  split_ifs at hu <;> simp at hu

/-- A code unit is written as itself, by a short escape or by its number. -/
theorem encodeUnit_cases (u : ℕ) :
    (encodeUnit u = [u] ∧ u ≠ 34 ∧ u ≠ 92) ∨ (∃ e, shortForm u = some e ∧ encodeUnit u = [92, e]) ∨
      encodeUnit u = [92, 117, upperHex (u / 4096 % 16), upperHex (u / 256 % 16), upperHex (u / 16 % 16),
        upperHex (u % 16)] := by
  unfold encodeUnit
  split_ifs with hallowed
  · refine Or.inl ⟨rfl, ?_, ?_⟩ <;> rintro rfl <;> exact absurd hallowed (by decide)
  · cases hshort : shortForm u with
    | some e => exact Or.inr (Or.inl ⟨e, rfl, rfl⟩)
    | none => exact Or.inr (Or.inr rfl)

theorem encodeUnit_append {u v : ℕ} (hu : u < 65536) (hv : v < 65536) {r s : Text}
    (h : encodeUnit u ++ r = encodeUnit v ++ s) : u = v ∧ r = s := by
  rcases encodeUnit_cases u with ⟨hu', -, hu92⟩ | ⟨e, he, hu'⟩ | hu' <;>
    rcases encodeUnit_cases v with ⟨hv', -, hv92⟩ | ⟨e', he', hv'⟩ | hv' <;>
    rw [hu', hv'] at h <;>
    simp only [List.cons_append, List.nil_append, List.cons.injEq] at h
  · exact h
  · exact absurd h.1 hu92
  · exact absurd h.1 hu92
  · exact absurd h.1.symm hv92
  · obtain ⟨-, rfl, hrest⟩ := h
    exact ⟨shortForm_injective he he', hrest⟩
  · exact absurd h.2.1 (shortForm_ne he)
  · exact absurd h.1.symm hv92
  · exact absurd h.2.1.symm (shortForm_ne he')
  · obtain ⟨-, -, h1, h2, h3, h4, hrest⟩ := h
    have hmod (n : ℕ) : n % 16 < 16 := Nat.mod_lt _ (by norm_num)
    have d1 := upperHex_injective (hmod _) (hmod _) h1
    have d2 := upperHex_injective (hmod _) (hmod _) h2
    have d3 := upperHex_injective (hmod _) (hmod _) h3
    have d4 := upperHex_injective (hmod _) (hmod _) h4
    exact ⟨by omega, hrest⟩

/-- No code unit begins with the quotation mark that ends the string. -/
theorem encodeUnit_head (u : ℕ) : ∃ c rest, encodeUnit u = c :: rest ∧ c ≠ 34 := by
  rcases encodeUnit_cases u with ⟨h, h34, -⟩ | ⟨e, -, h⟩ | h
  · exact ⟨u, [], h, h34⟩
  · exact ⟨92, [e], h, by decide⟩
  · exact ⟨92, _, h, by decide⟩

theorem encoded_append {s t : List ℕ} (hs : ∀ u ∈ s, u < 65536) (ht : ∀ u ∈ t, u < 65536) {r r' : Text}
    (h : s.flatMap encodeUnit ++ 34 :: r = t.flatMap encodeUnit ++ 34 :: r') : s = t ∧ r = r' := by
  induction s generalizing t with
  | nil =>
    cases t with
    | nil => exact ⟨rfl, (List.cons.inj h).2⟩
    | cons v t =>
      obtain ⟨c, rest, hv, hc⟩ := encodeUnit_head v
      rw [List.flatMap_cons, hv] at h
      exact absurd (List.cons.inj h).1.symm hc
  | cons u s ih =>
    cases t with
    | nil =>
      obtain ⟨c, rest, hu, hc⟩ := encodeUnit_head u
      rw [List.flatMap_cons, hu] at h
      exact absurd (List.cons.inj h).1 hc
    | cons v t =>
      rw [List.flatMap_cons, List.flatMap_cons, List.append_assoc, List.append_assoc] at h
      obtain ⟨rfl, hrest⟩ := encodeUnit_append (hs u List.mem_cons_self) (ht v List.mem_cons_self) h
      obtain ⟨rfl, hr⟩ := ih (fun u hu => hs u (List.mem_cons_of_mem _ hu))
        (fun u hu => ht u (List.mem_cons_of_mem _ hu)) hrest
      exact ⟨rfl, hr⟩

theorem WellFormed.small {s : List ℕ} (h : WellFormed s) : ∀ u ∈ s, u < 65536 := by
  obtain ⟨t, ht, rfl⟩ := h
  intro u hu
  obtain ⟨c, hc, hu⟩ := List.mem_flatMap.mp hu
  have hscalar := ht c hc
  simp only [isScalar, Bool.and_eq_true, decide_eq_true_eq] at hscalar
  unfold unitsOf at hu
  split_ifs at hu <;> simp only [List.mem_cons, List.not_mem_nil, or_false] at hu <;> omega

theorem quote_append {s t : List ℕ} (hs : WellFormed s) (ht : WellFormed t) {r r' : Text}
    (h : quote s ++ r = quote t ++ r') : s = t ∧ r = r' := by
  simp only [quote, List.cons_append, List.append_assoc, List.nil_append, List.cons.injEq, true_and] at h
  exact encoded_append hs.small ht.small h

end Strings

section Sequences
variable {α : Type} {close : ℕ}

/-- What can follow a value: a comma or the end of the container or of the text. -/
def Stops (r : Text) : Prop := ∀ c ∈ r.head?, c = 44 ∨ c = 93 ∨ c = 125

/-- What `prints` writes can be read back up to `same`, whatever follows. -/
def Readable (prints : α → Text → Prop) (same : α → α → Prop) (x : α) : Prop :=
  ∀ y p q r s, prints x p → prints y q → Stops r → Stops s → p ++ r = q ++ s → same x y ∧ r = s

theorem stops_rest (hclose : close = 93 ∨ close = 125) (parts : List Text) (r : Text) :
    Stops (parts.flatMap (44 :: ·) ++ close :: r) := by
  intro c hc
  cases parts with
  | nil =>
    obtain rfl := Option.some.inj hc
    exact Or.inr hclose
  | cons p parts =>
    obtain rfl := Option.some.inj hc
    exact Or.inl rfl

theorem rest_append {prints : α → Text → Prop} {same : α → α → Prop} (hclose : close = 93 ∨ close = 125)
    {xs ys : List α} {ps qs : List Text} (hreads : ∀ x ∈ xs, Readable prints same x)
    (hxs : List.Forall₂ prints xs ps) (hys : List.Forall₂ prints ys qs) {r s : Text}
    (h : ps.flatMap (44 :: ·) ++ close :: r = qs.flatMap (44 :: ·) ++ close :: s) :
    List.Forall₂ same xs ys ∧ r = s := by
  have hcomma : close ≠ 44 := by omega
  induction hxs generalizing ys qs with
  | nil =>
    cases hys with
    | nil => exact ⟨.nil, (List.cons.inj h).2⟩
    | cons hy hys => exact absurd (List.cons.inj h).1 hcomma
  | @cons x p xs ps hx hxs ih =>
    cases hys with
    | nil => exact absurd (List.cons.inj h).1.symm hcomma
    | @cons y q ys qs hy hys =>
      have hvalue : p ++ (ps.flatMap (44 :: ·) ++ close :: r) = q ++ (qs.flatMap (44 :: ·) ++ close :: s) := by
        simpa using h
      obtain ⟨hsame, hrest⟩ := hreads x List.mem_cons_self y p q _ _ hx hy (stops_rest hclose ps r)
        (stops_rest hclose qs s) hvalue
      obtain ⟨hall, hr⟩ := ih (fun x hx => hreads x (List.mem_cons_of_mem _ hx)) hys hrest
      exact ⟨.cons hsame hall, hr⟩

/-- The values of a container can be read back when no value begins like its end. -/
theorem joined_append {prints : α → Text → Prop} {same : α → α → Prop} (hclose : close = 93 ∨ close = 125)
    (hhead : ∀ x p, prints x p → ∃ c rest, p = c :: rest ∧ c ≠ close) {xs ys : List α} {ps qs : List Text}
    (hreads : ∀ x ∈ xs, Readable prints same x) (hxs : List.Forall₂ prints xs ps)
    (hys : List.Forall₂ prints ys qs) {r s : Text} (h : joined ps ++ close :: r = joined qs ++ close :: s) :
    List.Forall₂ same xs ys ∧ r = s := by
  cases hxs with
  | nil =>
    cases hys with
    | nil => exact ⟨.nil, (List.cons.inj h).2⟩
    | @cons y q ys qs hy hys =>
      obtain ⟨c, rest, rfl, hc⟩ := hhead y q hy
      exact absurd (List.cons.inj h).1.symm hc
  | @cons x p xs ps hx hxs =>
    cases hys with
    | nil =>
      obtain ⟨c, rest, rfl, hc⟩ := hhead x p hx
      exact absurd (List.cons.inj h).1 hc
    | @cons y q ys qs hy hys =>
      have hvalue : p ++ (ps.flatMap (44 :: ·) ++ close :: r) = q ++ (qs.flatMap (44 :: ·) ++ close :: s) := by
        simpa [joined] using h
      obtain ⟨hsame, hrest⟩ := hreads x List.mem_cons_self y p q _ _ hx hy (stops_rest hclose ps r)
        (stops_rest hclose qs s) hvalue
      obtain ⟨hall, hr⟩ := rest_append hclose (fun x hx => hreads x (List.mem_cons_of_mem _ hx)) hxs hys hrest
      exact ⟨.cons hsame hall, hr⟩

end Sequences

section Duplicates

theorem WellFormed.checked {s : List ℕ} (h : WellFormed s) : isWellFormed s = true := by
  obtain ⟨t, ht, rfl⟩ := h
  exact isWellFormed_utf16 ht

theorem checkNames_eq (seen : List (List ℕ)) {names : List (List ℕ)} (hnames : ∀ name ∈ names, WellFormed name) :
    checkNames seen names =
      if names.Nodup ∧ ∀ name ∈ names, name ∉ seen then .ok () else .error .duplicate := by
  induction names generalizing seen with
  | nil => rfl
  | cons name names ih =>
    rw [checkNames, if_pos (hnames name List.mem_cons_self).checked]
    by_cases hseen : name ∈ seen
    · rw [if_pos hseen, if_neg]
      · rfl
      · intro h
        exact h.2 name List.mem_cons_self hseen
    · rw [if_neg hseen, ih _ fun n hn => hnames n (List.mem_cons_of_mem _ hn)]
      congr 1
      simp only [List.nodup_cons, List.mem_cons, not_or, eq_iff_iff, forall_eq_or_imp]
      constructor
      · rintro ⟨hnodup, hnew⟩
        exact ⟨⟨fun hmem => (hnew name hmem).1 rfl, hnodup⟩, hseen, fun n hn => (hnew n hn).2⟩
      · rintro ⟨⟨hname, hnodup⟩, -, hnew⟩
        exact ⟨hnodup, fun n hn => ⟨fun heq => hname (heq ▸ hn), hnew n hn⟩⟩

theorem checkNames_nil {members : List (List Piece × Element)} (hnames : ∀ m ∈ members, WellFormed (unescape m.1)) :
    checkNames [] (members.map fun m => unescape m.1) =
      if (members.map fun m => unescape m.1).Nodup then .ok () else .error .duplicate := by
  rw [checkNames_eq]
  · simp
  · intro name hname
    obtain ⟨m, hm, rfl⟩ := List.mem_map.mp hname
    exact hnames m hm

theorem checkNames_wellFormed {seen names : List (List ℕ)} (h : checkNames seen names = .ok ()) :
    ∀ name ∈ names, WellFormed name := by
  induction names generalizing seen with
  | nil => simp
  | cons name names ih =>
    rw [checkNames] at h
    split_ifs at h with hname hseen
    intro n hn
    rcases List.mem_cons.mp hn with rfl | hn
    · exact exists_utf16 n hname
    · exact ih h n hn

/-- The writer fails exactly on a name that occurs twice. -/
theorem write_dichotomy {n room : ℕ} {e : Element} (he : Parsed n e) (hroom : n ≤ room) :
    (¬ HasDuplicate e ∧ ∃ t, write room e = .ok t) ∨ (HasDuplicate e ∧ write room e = .error .duplicate) := by
  induction he generalizing room with
  | null | true | false | number =>
    refine Or.inl ⟨?_, _, by rw [write]; rfl⟩
    rintro ⟨⟩
  | string hraw =>
    refine Or.inl ⟨?_, _, by rw [write, if_pos hraw.checked]; rfl⟩
    rintro ⟨⟩
  | @array n blanks items hitems ih =>
    obtain ⟨room, rfl⟩ : ∃ k, room = k + 1 := ⟨room - 1, by omega⟩
    rw [write]
    rcases mapM_dichotomy fun e he => ih e he (show n ≤ room by omega) with ⟨hnone, parts, hparts⟩ | ⟨⟨e, he, hdup⟩, hparts⟩
    · refine Or.inl ⟨?_, 91 :: (joined parts ++ [93]), by rw [hparts]; rfl⟩
      rintro (_ | ⟨he, hdup⟩)
      exact hnone _ he hdup
    · exact Or.inr ⟨.item he hdup, by rw [hparts]; rfl⟩
  | @object n blanks members hnames hvalues ih =>
    obtain ⟨room, rfl⟩ : ∃ k, room = k + 1 := ⟨room - 1, by omega⟩
    rw [write, checkNames_nil hnames]
    by_cases hnodup : (members.map fun m => unescape m.1).Nodup
    · rw [if_pos hnodup, ok_bind]
      have hmember (m : List Piece × Element) (hm : m ∈ orderByName members) :
          (¬ HasDuplicate m.2 ∧ ∃ t, (do
            let value ← write room m.2
            return quote (unescape m.1) ++ 58 :: value : Except Failure Text) = .ok t) ∨
          (HasDuplicate m.2 ∧ (do
            let value ← write room m.2
            return quote (unescape m.1) ++ 58 :: value : Except Failure Text) = .error .duplicate) := by
        have hm : m ∈ members := (List.mem_insertionSort _).mp hm
        rcases ih m hm (show n ≤ room by omega) with ⟨hnone, t, ht⟩ | ⟨hdup, ht⟩
        · exact Or.inl ⟨hnone, _, by rw [ht]; rfl⟩
        · exact Or.inr ⟨hdup, by rw [ht]; rfl⟩
      rcases mapM_dichotomy hmember with ⟨hnone, parts, hparts⟩ | ⟨⟨m, hm, hdup⟩, hparts⟩
      · refine Or.inl ⟨?_, 123 :: (joined parts ++ [125]), by rw [hparts]; rfl⟩
        rintro (h | _ | ⟨hm, hdup⟩)
        · exact h hnodup
        · exact hnone _ ((List.mem_insertionSort _).mpr hm) hdup
      · exact Or.inr ⟨.member ((List.mem_insertionSort _).mp hm) hdup, by rw [hparts]; rfl⟩
    · exact Or.inr ⟨.here hnodup, by rw [if_neg hnodup]; rfl⟩

end Duplicates

section Reading

/-- A value that the writer has written somewhere. -/
def Written (e : Element) (t : Text) : Prop := (∃ n, Parsed n e) ∧ ∃ room, write room e = .ok t

inductive ValueKind where
  | null
  | true
  | false
  | number
  | string
  | array
  | object
  deriving DecidableEq

/-- `ValueKind`. -/
def kind : Element → ValueKind
  | .null => .null
  | .true => .true
  | .false => .false
  | .number _ => .number
  | .string _ => .string
  | .array _ _ => .array
  | .object _ _ => .object

/-- The kind of a value, by its first character. -/
def kindOf (c : ℕ) : ValueKind :=
  if c = 110 then .null
  else if c = 116 then .true
  else if c = 102 then .false
  else if c = 34 then .string
  else if c = 91 then .array
  else if c = 123 then .object
  else .number

theorem write_array {room : ℕ} {blanks : List Text} {items : List Element} {t : Text}
    (h : write room (.array blanks items) = .ok t) :
    ∃ room' parts, room = room' + 1 ∧ items.mapM (write room') = .ok parts ∧ t = 91 :: (joined parts ++ [93]) := by
  cases room with
  | zero =>
    rw [write] at h
    cases h
  | succ room =>
    rw [write, bind_eq_ok] at h
    obtain ⟨parts, hparts, h⟩ := h
    exact ⟨room, parts, rfl, hparts, (Except.ok.inj h).symm⟩

theorem write_object {room : ℕ} {blanks : List Text} {members : List (List Piece × Element)} {t : Text}
    (h : write room (.object blanks members) = .ok t) :
    ∃ room' parts, room = room' + 1 ∧ (∀ m ∈ members, WellFormed (unescape m.1)) ∧
      List.Forall₂ (fun (m : List Piece × Element) part => ∃ value, write room' m.2 = .ok value ∧
        part = quote (unescape m.1) ++ 58 :: value) (orderByName members) parts ∧
      t = 123 :: (joined parts ++ [125]) := by
  cases room with
  | zero =>
    rw [write, bind_eq_ok] at h
    obtain ⟨-, -, h⟩ := h
    cases h
  | succ room =>
    rw [write, bind_eq_ok] at h
    obtain ⟨⟨⟩, hnames, h⟩ := h
    obtain ⟨parts, hparts, h⟩ := bind_eq_ok.mp h
    refine ⟨room, parts, rfl, fun m hm => ?_, (mapM_eq_ok.mp hparts).imp fun m part hpart => ?_, (Except.ok.inj h).symm⟩
    · exact checkNames_wellFormed hnames _ (List.mem_map_of_mem (f := fun m : List Piece × Element => unescape m.1) hm)
    · obtain ⟨value, hvalue, hpart⟩ := bind_eq_ok.mp hpart
      exact ⟨value, hvalue, (Except.ok.inj hpart).symm⟩

theorem isNumberChar_kind {c : ℕ} (hc : isNumberChar c = true) : kindOf c = .number ∧ c ≠ 44 ∧ c ≠ 93 ∧ c ≠ 125 := by
  simp only [isNumberChar, isDigit, Bool.or_eq_true, Bool.and_eq_true, decide_eq_true_eq] at hc
  refine ⟨?_, by omega, by omega, by omega⟩
  unfold kindOf
  rw [if_neg (by omega), if_neg (by omega), if_neg (by omega), if_neg (by omega), if_neg (by omega),
    if_neg (by omega)]

theorem Written.head {e : Element} {t : Text} (h : Written e t) :
    ∃ c rest, t = c :: rest ∧ kindOf c = kind e ∧ c ≠ 93 ∧ c ≠ 125 := by
  obtain ⟨⟨n, hparsed⟩, room, hwrite⟩ := h
  cases hparsed with
  | null | true | false =>
    rw [write] at hwrite
    obtain rfl := Except.ok.inj hwrite
    exact ⟨_, _, rfl, rfl, by decide⟩
  | string hraw =>
    rw [write, if_pos hraw.checked] at hwrite
    obtain rfl := Except.ok.inj hwrite
    exact ⟨_, _, rfl, rfl, by decide⟩
  | @number n token =>
    rw [write] at hwrite
    obtain rfl := Except.ok.inj hwrite
    obtain ⟨c, rest, hraw⟩ := List.exists_cons_of_ne_nil token.nonempty
    obtain ⟨hkind, -, h93, h125⟩ := isNumberChar_kind (token.chars c (hraw ▸ List.mem_cons_self))
    exact ⟨c, rest, hraw, hkind, h93, h125⟩
  | array hitems =>
    obtain ⟨room', parts, -, -, rfl⟩ := write_array hwrite
    exact ⟨91, _, rfl, rfl, by decide⟩
  | object hnames hvalues =>
    obtain ⟨room', parts, -, -, -, rfl⟩ := write_object hwrite
    exact ⟨123, _, rfl, rfl, by decide⟩

/-- A number ends where its characters end. -/
theorem number_append {raw raw' r s : Text} (hraw : ∀ c ∈ raw, isNumberChar c = true)
    (hraw' : ∀ c ∈ raw', isNumberChar c = true) (hr : Stops r) (hs : Stops s) (h : raw ++ r = raw' ++ s) :
    raw = raw' ∧ r = s := by
  have hstop {r : Text} (hr : Stops r) : r.takeWhile isNumberChar = [] := by
    cases r with
    | nil => rfl
    | cons c r =>
      apply List.takeWhile_cons_of_neg
      intro hc
      have hkind := isNumberChar_kind hc
      rcases hr c rfl with rfl | rfl | rfl <;> simp at hkind
  have hfirst : (raw ++ r).takeWhile isNumberChar = raw := by
    rw [List.takeWhile_append_of_pos hraw, hstop hr, List.append_nil]
  have hsecond : (raw' ++ s).takeWhile isNumberChar = raw' := by
    rw [List.takeWhile_append_of_pos hraw', hstop hs, List.append_nil]
  have hraws : raw = raw' := by
    rw [← hfirst, ← hsecond, h]
  subst hraws
  exact ⟨rfl, List.append_cancel_left h⟩

theorem Written.kind_eq {a b : Element} {p q r s : Text} (hp : Written a p) (hq : Written b q)
    (h : p ++ r = q ++ s) : kind a = kind b := by
  obtain ⟨c, rest, rfl, hc, -⟩ := hp.head
  obtain ⟨c', rest', rfl, hc', -⟩ := hq.head
  obtain ⟨rfl, -⟩ := List.cons.inj h
  exact hc.symm.trans hc'

theorem Written.eq_of_write {e : Element} {t t' : Text} (h : Written e t) (hwrite : ∀ room, write room e = .ok t') :
    t = t' := by
  obtain ⟨-, room, ht⟩ := h
  exact Except.ok.inj (ht.symm.trans (hwrite room))

theorem Written.items {blanks : List Text} {items : List Element} {t : Text} (h : Written (.array blanks items) t) :
    ∃ parts, List.Forall₂ Written items parts ∧ t = 91 :: (joined parts ++ [93]) := by
  obtain ⟨⟨n, hparsed⟩, room, hwrite⟩ := h
  obtain ⟨room', parts, -, hparts, rfl⟩ := write_array hwrite
  cases hparsed with
  | @array n _ _ hitems =>
    have hall := (List.forall₂_and_left items parts).mpr ⟨hitems, mapM_eq_ok.mp hparts⟩
    exact ⟨parts, hall.imp fun e part he => ⟨⟨n, he.1⟩, room', he.2⟩, rfl⟩

/-- What is written for a member. -/
def WrittenMember (m : List Piece × Element) (part : Text) : Prop :=
  WellFormed (unescape m.1) ∧ ∃ value, Written m.2 value ∧ part = quote (unescape m.1) ++ 58 :: value

/-- Members of one name with the same values. -/
def SameMember (m m' : List Piece × Element) : Prop := unescape m.1 = unescape m'.1 ∧ Same m.2 m'.2

theorem Written.members {blanks : List Text} {members : List (List Piece × Element)} {t : Text}
    (h : Written (.object blanks members) t) :
    ∃ parts, List.Forall₂ WrittenMember (orderByName members) parts ∧ t = 123 :: (joined parts ++ [125]) := by
  obtain ⟨⟨n, hparsed⟩, room, hwrite⟩ := h
  obtain ⟨room', parts, -, -, hparts, rfl⟩ := write_object hwrite
  cases hparsed with
  | @object n _ _ hnames hvalues =>
    have hparsed : ∀ m ∈ orderByName members, WellFormed (unescape m.1) ∧ Parsed n m.2 := by
      intro m hm
      have hm : m ∈ members := (List.mem_insertionSort _).mp hm
      exact ⟨hnames m hm, hvalues m hm⟩
    have hall := (List.forall₂_and_left (orderByName members) parts).mpr ⟨hparsed, hparts⟩
    refine ⟨parts, hall.imp ?_, rfl⟩
    rintro m part ⟨⟨hname, hvalue⟩, value, hwritten, hpart⟩
    exact ⟨hname, value, ⟨⟨n, hvalue⟩, room', hwritten⟩, hpart⟩

theorem readable_member {m : List Piece × Element} (hname : WellFormed (unescape m.1))
    (hvalue : Readable Written Same m.2) : Readable WrittenMember SameMember m := by
  rintro m' p q r s ⟨-, value, hwritten, rfl⟩ ⟨hname', value', hwritten', rfl⟩ hr hs h
  rw [List.append_assoc, List.append_assoc] at h
  obtain ⟨hnames, hrest⟩ := quote_append hname hname' h
  obtain ⟨hsame, hrs⟩ := hvalue m'.2 value value' r s hwritten hwritten' hr hs (List.cons.inj hrest).2
  exact ⟨⟨hnames, hsame⟩, hrs⟩

theorem Same.of_forall₂ {blanks blanks' : List Text} {members members' reordered : List (List Piece × Element)}
    (h : List.Forall₂ SameMember members reordered) (hperm : reordered.Perm members') :
    Same (.object blanks members) (.object blanks' members') := by
  obtain ⟨hlength, hall⟩ := List.forall₂_iff_zip.mp h
  apply Same.object hperm hlength
  · intro p hp
    exact (@hall p.1 p.2 hp).1
  · intro p hp
    exact (@hall p.1 p.2 hp).2

theorem same_object {blanks blanks' : List Text} {members members' : List (List Piece × Element)}
    (h : List.Forall₂ SameMember (orderByName members) (orderByName members')) :
    Same (.object blanks members) (.object blanks' members') := by
  obtain ⟨reordered, hsame, hperm⟩ := List.perm_comp_forall₂ (List.perm_insertionSort _ members).symm h
  exact .of_forall₂ hsame (hperm.trans (List.perm_insertionSort _ members'))

/-- What is written for two elements differs, unless they are the same. -/
theorem write_readable {n : ℕ} {a : Element} (ha : Parsed n a) : Readable Written Same a := by
  induction ha with
  | null =>
    intro b p q r s hp hq hr hs h
    have hkind := hp.kind_eq hq h
    cases b with
    | null =>
      obtain rfl := hp.eq_of_write fun _ => by rw [write]; rfl
      obtain rfl := hq.eq_of_write fun _ => by rw [write]; rfl
      exact ⟨.null, List.append_cancel_left h⟩
    | _ => cases hkind
  | true =>
    intro b p q r s hp hq hr hs h
    have hkind := hp.kind_eq hq h
    cases b with
    | true =>
      obtain rfl := hp.eq_of_write fun _ => by rw [write]; rfl
      obtain rfl := hq.eq_of_write fun _ => by rw [write]; rfl
      exact ⟨.true, List.append_cancel_left h⟩
    | _ => cases hkind
  | false =>
    intro b p q r s hp hq hr hs h
    have hkind := hp.kind_eq hq h
    cases b with
    | false =>
      obtain rfl := hp.eq_of_write fun _ => by rw [write]; rfl
      obtain rfl := hq.eq_of_write fun _ => by rw [write]; rfl
      exact ⟨.false, List.append_cancel_left h⟩
    | _ => cases hkind
  | @number n token =>
    intro b p q r s hp hq hr hs h
    have hkind := hp.kind_eq hq h
    cases b with
    | number token' =>
      obtain rfl := hp.eq_of_write fun _ => by rw [write]; rfl
      obtain rfl := hq.eq_of_write fun _ => by rw [write]; rfl
      obtain ⟨hraw, hrs⟩ := number_append token.chars token'.chars hr hs h
      obtain rfl := Number.ext hraw
      exact ⟨.number _, hrs⟩
    | _ => cases hkind
  | @string n raw hraw =>
    intro b p q r s hp hq hr hs h
    have hkind := hp.kind_eq hq h
    cases b with
    | string raw' =>
      obtain ⟨⟨n', hparsed⟩, -⟩ := id hq
      cases hparsed with
      | string hraw' =>
        obtain rfl := hp.eq_of_write fun _ => by rw [write, if_pos hraw.checked]; rfl
        obtain rfl := hq.eq_of_write fun _ => by rw [write, if_pos hraw'.checked]; rfl
        obtain ⟨hstring, hrs⟩ := quote_append hraw hraw' h
        exact ⟨.string hstring, hrs⟩
    | _ => cases hkind
  | @array n blanks items hitems ih =>
    intro b p q r s hp hq hr hs h
    have hkind := hp.kind_eq hq h
    cases b with
    | array blanks' items' =>
      obtain ⟨parts, hparts, rfl⟩ := hp.items
      obtain ⟨parts', hparts', rfl⟩ := hq.items
      have hjoined : joined parts ++ 93 :: r = joined parts' ++ 93 :: s := by
        simpa using h
      have hhead (e : Element) (t : Text) (ht : Written e t) : ∃ c rest, t = c :: rest ∧ c ≠ 93 := by
        obtain ⟨c, rest, hc, -, h93, -⟩ := ht.head
        exact ⟨c, rest, hc, h93⟩
      obtain ⟨hsame, hrs⟩ := joined_append (Or.inl rfl) hhead ih hparts hparts' hjoined
      obtain ⟨hlength, hall⟩ := List.forall₂_iff_zip.mp hsame
      exact ⟨.array hlength fun p hp => @hall p.1 p.2 hp, hrs⟩
    | _ => cases hkind
  | @object n blanks members hnames hvalues ih =>
    intro b p q r s hp hq hr hs h
    have hkind := hp.kind_eq hq h
    cases b with
    | object blanks' members' =>
      obtain ⟨parts, hparts, rfl⟩ := hp.members
      obtain ⟨parts', hparts', rfl⟩ := hq.members
      have hjoined : joined parts ++ 125 :: r = joined parts' ++ 125 :: s := by
        simpa using h
      have hhead (m : List Piece × Element) (t : Text) (ht : WrittenMember m t) :
          ∃ c rest, t = c :: rest ∧ c ≠ 125 := by
        obtain ⟨-, value, -, rfl⟩ := ht
        exact ⟨34, _, rfl, by decide⟩
      have hreads : ∀ m ∈ orderByName members, Readable WrittenMember SameMember m := by
        intro m hm
        have hm : m ∈ members := (List.mem_insertionSort _).mp hm
        exact readable_member (hnames m hm) (ih m hm)
      obtain ⟨hsame, hrs⟩ := joined_append (Or.inr rfl) hhead hreads hparts hparts' hjoined
      exact ⟨same_object hsame, hrs⟩
    | _ => cases hkind

end Reading

section Sorting

/-- All that the writer reads of a member. -/
def entry (room : ℕ) (m : List Piece × Element) : List ℕ × Except Failure Text := (unescape m.1, write room m.2)

theorem mapM_entry (room : ℕ) (members : List (List Piece × Element)) :
    (members.mapM fun m => do
      let value ← write room m.2
      return quote (unescape m.1) ++ 58 :: value : Except Failure (List Text)) =
    (members.map (entry room)).mapM fun p => do
      let value ← p.2
      return quote p.1 ++ 58 :: value := by
  induction members with
  | nil => rfl
  | cons m members ih =>
    rw [List.mapM_cons, ih, List.map_cons, List.mapM_cons]
    rfl

theorem orderByName_entry (room : ℕ) (members : List (List Piece × Element)) :
    (orderByName members).map (entry room) =
      (members.map (entry room)).insertionSort fun a b => a.1 ≤ b.1 :=
  List.map_insertionSort _ _ (entry room) members fun _ _ _ _ => Iff.rfl

theorem mapM_congr_forall₂ {α β γ : Type} {f : α → Except Failure γ} {g : β → Except Failure γ} {xs : List α}
    {ys : List β} (h : List.Forall₂ (fun x y => f x = g y) xs ys) : xs.mapM f = ys.mapM g := by
  induction h with
  | nil => rfl
  | cons hxy _ ih => rw [List.mapM_cons, List.mapM_cons, hxy, ih]

/-- The same elements are written alike. -/
theorem write_same {a b : Element} (h : Same a b) {n room : ℕ} (ha : Parsed n a) (hroom : n ≤ room)
    (hunique : ¬ HasDuplicate a) : write room a = write room b := by
  induction h generalizing n room with
  | null | true | false | number => rfl
  | string h =>
    rw [write, write, h]
  | @array blanks blanks' items items' hlength h ih =>
    cases ha with
    | @array n _ _ hitems =>
      obtain ⟨room, rfl⟩ : ∃ k, room = k + 1 := ⟨room - 1, by omega⟩
      have hitem : List.Forall₂ (fun e e' => write room e = write room e') items items' := by
        apply List.forall₂_iff_zip.mpr
        refine ⟨hlength, fun {e e'} hp => ?_⟩
        have he : e ∈ items := (List.of_mem_zip hp).1
        exact ih _ hp (hitems e he) (by omega) fun hdup => hunique (.item he hdup)
      rw [write, write, mapM_congr_forall₂ hitem]
  | @object blanks blanks' members members' reordered hperm hlength hnames h ih =>
    cases ha with
    | @object n _ _ hwellFormed hvalues =>
      obtain ⟨room, rfl⟩ : ∃ k, room = k + 1 := ⟨room - 1, by omega⟩
      have hentries : members.map (entry room) = reordered.map (entry room) := by
        apply List.forall₂_eq_eq_eq ▸ List.forall₂_map_left_iff.mpr (List.forall₂_map_right_iff.mpr _)
        apply List.forall₂_iff_zip.mpr
        refine ⟨hlength, fun {m m'} hp => ?_⟩
        have hm : m ∈ members := (List.of_mem_zip hp).1
        have hvalue := ih _ hp (hvalues m hm) (show n ≤ room by omega) fun hdup => hunique (.member hm hdup)
        unfold entry
        rw [hnames _ hp, hvalue]
      have hentriesPerm : (members.map (entry room)).Perm (members'.map (entry room)) := by
        rw [hentries]
        exact hperm.map _
      have hnodup : (members.map fun m => unescape m.1).Nodup := by
        by_contra hnot
        exact hunique (.here hnot)
      have hkeys (members : List (List Piece × Element)) :
          (members.map (entry room)).map Prod.fst = members.map fun m => unescape m.1 := by
        rw [List.map_map]
        rfl
      have hnodup' : (members'.map fun m => unescape m.1).Nodup := by
        rw [← hkeys]
        rw [← hkeys] at hnodup
        exact (hentriesPerm.map Prod.fst).nodup_iff.mp hnodup
      have hwellFormed' : ∀ m ∈ members', WellFormed (unescape m.1) := by
        intro m hm
        have hkey := (hentriesPerm.map Prod.fst).mem_iff.mpr (List.mem_map_of_mem (List.mem_map_of_mem hm))
        rw [hkeys] at hkey
        obtain ⟨m', hm', hname⟩ := List.mem_map.mp hkey
        have hname : unescape m'.1 = unescape m.1 := hname
        exact hname ▸ hwellFormed m' hm'
      rw [write, write, checkNames_nil hwellFormed, checkNames_nil hwellFormed', if_pos hnodup, if_pos hnodup',
        mapM_entry, mapM_entry, orderByName_entry, orderByName_entry,
        Sorting.insertionSort_eq_of_perm hentriesPerm (hkeys members ▸ hnodup)]

end Sorting

section Bytes

theorem upperHex_small {n : ℕ} (hn : n < 16) : upperHex n < 128 := by
  unfold upperHex
  split_ifs <;> omega

theorem encodeUnit_small (u : ℕ) : ∀ c ∈ encodeUnit u, c < 128 := by
  have hmod (n : ℕ) : n % 16 < 16 := Nat.mod_lt _ (by norm_num)
  intro c hc
  unfold encodeUnit at hc
  split_ifs at hc with hallowed
  · simp only [isAllowed, Bool.and_eq_true, decide_eq_true_eq] at hallowed
    obtain rfl := List.mem_singleton.mp hc
    omega
  · cases hshort : shortForm u with
    | some e =>
      have he : e < 128 := by
        unfold shortForm at hshort
        split_ifs at hshort <;> simp only [Option.some.injEq] at hshort <;> omega
      simp only [hshort, List.mem_cons, List.not_mem_nil, or_false] at hc
      omega
    | none =>
      simp only [hshort, List.mem_cons, List.not_mem_nil, or_false] at hc
      rcases hc with rfl | rfl | rfl | rfl | rfl | rfl
      · norm_num
      · norm_num
      all_goals exact upperHex_small (hmod _)

theorem quote_small (s : List ℕ) : ∀ c ∈ quote s, c < 128 := by
  intro c hc
  simp only [quote, List.mem_cons, List.mem_append, List.mem_flatMap, List.not_mem_nil, or_false] at hc
  rcases hc with rfl | ⟨u, -, hc⟩ | rfl
  · norm_num
  · exact encodeUnit_small u c hc
  · norm_num

theorem joined_small {parts : List Text} (h : ∀ part ∈ parts, ∀ c ∈ part, c < 128) : ∀ c ∈ joined parts, c < 128 := by
  intro c hc
  cases parts with
  | nil => cases hc
  | cons part parts =>
    simp only [joined, List.mem_append, List.mem_flatMap, List.mem_cons] at hc
    rcases hc with hc | ⟨other, hother, rfl | hc⟩
    · exact h part List.mem_cons_self c hc
    · norm_num
    · exact h other (List.mem_cons_of_mem _ hother) c hc

/-- The output is ASCII. -/
theorem write_small {n room : ℕ} {e : Element} (he : Parsed n e) {t : Text} (h : write room e = .ok t) :
    ∀ c ∈ t, c < 128 := by
  induction he generalizing room t with
  | null | true | false =>
    rw [write] at h
    obtain rfl := Except.ok.inj h
    decide
  | @number n token =>
    rw [write] at h
    obtain rfl := Except.ok.inj h
    intro c hc
    have hchar := token.chars c hc
    simp only [isNumberChar, isDigit, Bool.or_eq_true, Bool.and_eq_true, decide_eq_true_eq] at hchar
    omega
  | string hraw =>
    rw [write, if_pos hraw.checked] at h
    obtain rfl := Except.ok.inj h
    exact quote_small _
  | array hitems ih =>
    obtain ⟨room', parts, -, hparts, rfl⟩ := write_array h
    have hsmall : ∀ c ∈ joined parts, c < 128 := by
      apply joined_small
      intro part hpart
      obtain ⟨e, he, hwritten⟩ := exists_of_mem_right (mapM_eq_ok.mp hparts) hpart
      exact ih e he hwritten
    intro c hc
    simp only [List.mem_cons, List.mem_append, List.not_mem_nil, or_false] at hc
    rcases hc with rfl | hc | rfl
    · norm_num
    · exact hsmall c hc
    · norm_num
  | object hnames hvalues ih =>
    obtain ⟨room', parts, -, -, hparts, rfl⟩ := write_object h
    have hsmall : ∀ c ∈ joined parts, c < 128 := by
      apply joined_small
      intro part hpart
      obtain ⟨m, hm, value, hwritten, rfl⟩ := exists_of_mem_right hparts hpart
      have hvalue := ih m ((List.mem_insertionSort _).mp hm) hwritten
      intro c hc
      simp only [List.mem_append, List.mem_cons] at hc
      rcases hc with hc | rfl | hc
      · exact quote_small _ c hc
      · norm_num
      · exact hvalue c hc
    intro c hc
    simp only [List.mem_cons, List.mem_append, List.not_mem_nil, or_false] at hc
    rcases hc with rfl | hc | rfl
    · norm_num
    · exact hsmall c hc
    · norm_num

/-- What has been written was well-formed. -/
theorem write_parsed {room : ℕ} {e : Element} {t : Text} (h : write room e = .ok t) : Parsed room e := by
  induction room using Nat.strong_induction_on generalizing e t with
  | h room ih =>
    cases e with
    | null => exact .null
    | true => exact .true
    | false => exact .false
    | number token => exact .number
    | string raw =>
      rw [write] at h
      split_ifs at h with hraw
      exact .string (exists_utf16 _ hraw)
    | array blanks items =>
      obtain ⟨room', parts, rfl, hparts, -⟩ := write_array h
      apply Parsed.array
      intro e he
      obtain ⟨t, -, ht⟩ := exists_of_mem_left (mapM_eq_ok.mp hparts) he
      exact ih room' (by omega) ht
    | object blanks members =>
      obtain ⟨room', parts, rfl, hnames, hparts, -⟩ := write_object h
      apply Parsed.object hnames
      intro m hm
      obtain ⟨t, -, value, hvalue, -⟩ := exists_of_mem_left hparts ((List.mem_insertionSort _).mpr hm)
      exact ih room' (by omega) hvalue

theorem map_ofNat_injective {s t : Text} (hs : ∀ c ∈ s, c < 128) (ht : ∀ c ∈ t, c < 128)
    (h : s.map UInt8.ofNat = t.map UInt8.ofNat) : s = t := by
  have hback {s : Text} (hs : ∀ c ∈ s, c < 128) : (s.map UInt8.ofNat).map UInt8.toNat = s := by
    rw [List.map_map]
    conv_rhs => rw [← List.map_id s]
    apply List.map_congr_left
    intro c hc
    have hsmall := hs c hc
    exact toNat_ofNat_of_lt (by omega)
  rw [← hback hs, ← hback ht, h]

theorem canonical_dichotomy {n : ℕ} {e : Element} (he : Parsed n e) (hn : n ≤ 1000) :
    (¬ HasDuplicate e ∧ ∃ t, write 1000 e = .ok t ∧ canonical e = .ok (t.map UInt8.ofNat)) ∨
      (HasDuplicate e ∧ canonical e = .error .duplicate) := by
  rcases write_dichotomy he hn with ⟨hnone, t, ht⟩ | ⟨hdup, ht⟩
  · exact Or.inl ⟨hnone, t, ht, by rw [canonical, ht]; rfl⟩
  · exact Or.inr ⟨hdup, by rw [canonical, ht]; rfl⟩

theorem canonical_throws_iff {n : ℕ} {e : Element} (he : Parsed n e) (hn : n ≤ 1000) :
    (∃ failure, canonical e = .error failure) ↔ HasDuplicate e := by
  rcases canonical_dichotomy he hn with ⟨hnone, t, -, hcanonical⟩ | ⟨hdup, hcanonical⟩
  · rw [hcanonical]
    simp [hnone]
  · rw [hcanonical]
    simp [hdup]

theorem canonical_eq_iff {n : ℕ} {a b : Element} (ha : Parsed n a) (hb : Parsed n b) (hn : n ≤ 1000)
    (hua : ¬ HasDuplicate a) (hub : ¬ HasDuplicate b) : canonical a = canonical b ↔ Same a b := by
  obtain ⟨-, t, ht, hcanonical⟩ := (canonical_dichotomy ha hn).resolve_right fun h => hua h.1
  obtain ⟨-, t', ht', hcanonical'⟩ := (canonical_dichotomy hb hn).resolve_right fun h => hub h.1
  constructor
  · intro heq
    rw [hcanonical, hcanonical'] at heq
    obtain rfl := map_ofNat_injective (write_small ha ht) (write_small hb ht') (Except.ok.inj heq)
    have hend : Stops [] := by
      intro c hc
      cases hc
    exact (write_readable ha b t t [] [] ⟨⟨_, ha⟩, _, ht⟩ ⟨⟨_, hb⟩, _, ht'⟩ hend hend rfl).1
  · intro hsame
    rw [canonical, canonical, write_same hsame ha hn hua]

end Bytes

end Candidates
