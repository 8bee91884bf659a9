import AzdSanta.Python.Text

/-! Strings of .NET, which are sequences of UTF-16 code units. -/
namespace PowerShell
open Python

/-- The code units of one code point. -/
def unitsOf (c : ℕ) : List ℕ :=
  if c < 0x10000 then [c] else [0xD800 + (c - 0x10000) / 1024, 0xDC00 + (c - 0x10000) % 1024]

/-- A text as a .NET string. -/
def utf16 (t : Text) : List ℕ := t.flatMap unitsOf

def isHighSurrogate (u : ℕ) : Bool := 0xD800 ≤ u && u < 0xDC00

def isLowSurrogate (u : ℕ) : Bool := 0xDC00 ≤ u && u < 0xE000

/-- Every surrogate has its other half. -/
def isWellFormed : List ℕ → Bool
  | [] => true
  | [u] => u < 0x10000 && !isSurrogate u
  | u :: v :: rest =>
    if isHighSurrogate u && isLowSurrogate v then isWellFormed rest
    else u < 0x10000 && !isSurrogate u && isWellFormed (v :: rest)

/-- The replacement character stands for a surrogate without its other half. -/
def replaced (u : ℕ) : ℕ := if isSurrogate u then 0xFFFD else u

/-- `Encoding.UTF8.GetBytes`. -/
def utf8GetBytes : List ℕ → Bytes
  | [] => []
  | [u] => utf8Char (replaced u)
  | u :: v :: rest =>
    if isHighSurrogate u && isLowSurrogate v then
      utf8Char (0x10000 + (u - 0xD800) * 1024 + (v - 0xDC00)) ++ utf8GetBytes rest
    else utf8Char (replaced u) ++ utf8GetBytes (v :: rest)

theorem utf8GetBytes_single {c : ℕ} (hc : isSurrogate c = false) (rest : List ℕ) :
    utf8GetBytes (c :: rest) = utf8Char c ++ utf8GetBytes rest := by
  have hreplaced : replaced c = c := by
    unfold replaced
    rw [hc]
    rfl
  cases rest with
  | nil => rw [utf8GetBytes, utf8GetBytes, hreplaced, List.append_nil]
  | cons v rest =>
    have hhigh : isHighSurrogate c = false := by
      simp only [isSurrogate, Bool.and_eq_false_iff, decide_eq_false_iff_not] at hc
      simp only [isHighSurrogate, Bool.and_eq_false_iff, decide_eq_false_iff_not]
      omega
    rw [utf8GetBytes, hhigh, hreplaced]
    rfl

theorem utf8GetBytes_pair {c : ℕ} (hlow : 0x10000 ≤ c) (hhigh : c < 0x110000) (rest : List ℕ) :
    utf8GetBytes ((0xD800 + (c - 0x10000) / 1024) :: (0xDC00 + (c - 0x10000) % 1024) :: rest) =
      utf8Char c ++ utf8GetBytes rest := by
  have hfirst : isHighSurrogate (0xD800 + (c - 0x10000) / 1024) = true := by
    simp only [isHighSurrogate, Bool.and_eq_true, decide_eq_true_eq]
    omega
  have hsecond : isLowSurrogate (0xDC00 + (c - 0x10000) % 1024) = true := by
    simp only [isLowSurrogate, Bool.and_eq_true, decide_eq_true_eq]
    omega
  have hpoint : 0x10000 + (0xD800 + (c - 0x10000) / 1024 - 0xD800) * 1024 +
      (0xDC00 + (c - 0x10000) % 1024 - 0xDC00) = c := by
    omega
  rw [utf8GetBytes, hfirst, hsecond, hpoint]
  rfl

theorem utf8GetBytes_unitsOf {c : ℕ} (hc : isScalar c = true) (rest : List ℕ) :
    utf8GetBytes (unitsOf c ++ rest) = utf8Char c ++ utf8GetBytes rest := by
  simp only [isScalar, Bool.and_eq_true, Bool.not_eq_true', decide_eq_true_eq] at hc
  unfold unitsOf
  split_ifs with hsmall
  · exact utf8GetBytes_single hc.2 rest
  · exact utf8GetBytes_pair (by omega) hc.1 rest

/-- Well-formed strings have the same UTF-8 in .NET and in Python. -/
theorem utf8GetBytes_utf16 {t : Text} (ht : ∀ c ∈ t, isScalar c = true) :
    utf8GetBytes (utf16 t) = t.flatMap utf8Char := by
  induction t with
  | nil => rfl
  | cons c t ih =>
    have hrest : ∀ c ∈ t, isScalar c = true := fun c hc => ht c (List.mem_cons_of_mem _ hc)
    show utf8GetBytes (unitsOf c ++ utf16 t) = _
    rw [utf8GetBytes_unitsOf (ht c List.mem_cons_self), ih hrest, List.flatMap_cons]

theorem utf16_injective {s t : Text} (hs : ∀ c ∈ s, isScalar c = true) (ht : ∀ c ∈ t, isScalar c = true)
    (h : utf16 s = utf16 t) : s = t := by
  have hbytes : s.flatMap utf8Char = t.flatMap utf8Char := by
    rw [← utf8GetBytes_utf16 hs, ← utf8GetBytes_utf16 ht, h]
  apply encodeUtf8_injective (encodeUtf8_scalars hs)
  rw [encodeUtf8_scalars ht, hbytes]

theorem utf16_eq_nil {t : Text} : utf16 t = [] ↔ t = [] := by
  cases t with
  | nil => simp [utf16]
  | cons c t =>
    have hunits : unitsOf c ≠ [] := by
      unfold unitsOf
      split_ifs <;> simp
    simp [utf16, hunits]

theorem isWellFormed_single {c : ℕ} (hc : isScalar c = true) (hsmall : c < 0x10000) (rest : List ℕ) :
    isWellFormed (c :: rest) = isWellFormed rest := by
  simp only [isScalar, Bool.and_eq_true, Bool.not_eq_true'] at hc
  have hhigh : isHighSurrogate c = false := by
    have hsurrogate := hc.2
    simp only [isSurrogate, Bool.and_eq_false_iff, decide_eq_false_iff_not] at hsurrogate
    simp only [isHighSurrogate, Bool.and_eq_false_iff, decide_eq_false_iff_not]
    omega
  cases rest with
  | nil => simp [isWellFormed, hc.2, hsmall]
  | cons v rest => simp [isWellFormed, hc.2, hsmall, hhigh]

theorem isWellFormed_utf16 {t : Text} (ht : ∀ c ∈ t, isScalar c = true) : isWellFormed (utf16 t) = true := by
  induction t with
  | nil => rfl
  | cons c t ih =>
    have hrest := ih fun c hc => ht c (List.mem_cons_of_mem _ hc)
    have hc := ht c List.mem_cons_self
    show isWellFormed (unitsOf c ++ utf16 t) = true
    unfold unitsOf
    split_ifs with hsmall
    · exact (isWellFormed_single hc hsmall _).trans hrest
    · simp only [isScalar, Bool.and_eq_true, decide_eq_true_eq] at hc
      have hpair : (isHighSurrogate (0xD800 + (c - 0x10000) / 1024) &&
          isLowSurrogate (0xDC00 + (c - 0x10000) % 1024)) = true := by
        simp only [isHighSurrogate, isLowSurrogate, Bool.and_eq_true, decide_eq_true_eq]
        omega
      rw [List.cons_append, List.cons_append, List.nil_append, isWellFormed, if_pos hpair]
      exact hrest

/-- A string without a lone surrogate is the form of a text. -/
theorem exists_utf16 (s : List ℕ) (h : isWellFormed s = true) : ∃ t, (∀ c ∈ t, isScalar c = true) ∧ s = utf16 t := by
  have hone {u : ℕ} (hu : u < 0x10000) (hscalar : isSurrogate u = false) : isScalar u = true ∧ unitsOf u = [u] := by
    constructor
    · simp only [isScalar, hscalar, Bool.and_eq_true, decide_eq_true_eq, Bool.not_false, and_true]
      omega
    · exact if_pos hu
  fun_induction isWellFormed s with
  | case1 => exact ⟨[], by simp, rfl⟩
  | case2 u =>
    simp only [Bool.and_eq_true, decide_eq_true_eq, Bool.not_eq_true'] at h
    obtain ⟨hscalar, hunits⟩ := hone h.1 h.2
    refine ⟨[u], by simpa using hscalar, ?_⟩
    rw [utf16, List.flatMap_singleton, hunits]
  | case3 u v rest hpair ih =>
    obtain ⟨t, ht, rfl⟩ := ih h
    simp only [isHighSurrogate, isLowSurrogate, Bool.and_eq_true, decide_eq_true_eq] at hpair
    obtain ⟨point, hpoint⟩ : ∃ point, point = 0x10000 + (u - 0xD800) * 1024 + (v - 0xDC00) := ⟨_, rfl⟩
    refine ⟨point :: t, ?_, ?_⟩
    · intro c hc
      rcases List.mem_cons.mp hc with rfl | hc
      · simp only [isScalar, isSurrogate, Bool.and_eq_true, decide_eq_true_eq, Bool.not_eq_true', Bool.and_eq_false_iff,
          decide_eq_false_iff_not]
        omega
      · exact ht c hc
    · have hunits : unitsOf point = [u, v] := by
        rw [unitsOf, if_neg (by omega)]
        simp only [List.cons.injEq, and_true]
        exact ⟨by omega, by omega⟩
      show _ = unitsOf point ++ utf16 t
      rw [hunits]
      rfl
  | case4 u v rest hpair ih =>
    simp only [Bool.and_eq_true, decide_eq_true_eq, Bool.not_eq_true'] at h
    obtain ⟨t, ht, hrest⟩ := ih h.2
    obtain ⟨hscalar, hunits⟩ := hone h.1.1 h.1.2
    refine ⟨u :: t, ?_, ?_⟩
    · intro c hc
      rcases List.mem_cons.mp hc with rfl | hc
      · exact hscalar
      · exact ht c hc
    · rw [utf16, List.flatMap_cons, hunits, hrest]
      rfl

end PowerShell
