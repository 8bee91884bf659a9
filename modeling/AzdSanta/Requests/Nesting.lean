import AzdSanta.Python.JsonExtend
import AzdSanta.Python.JsonHooks
import AzdSanta.Requests.Decode

/-! The depth scanner counts the containers that the JSON reader opens. -/
namespace Requests
open Python Checks

variable {maximum : ℕ}

/-- The scanner comes to the end of the text, from `depth` open containers on. -/
def Passes (maximum depth : ℕ) (input : Text) : Prop :=
  checkDepth maximum ⟨depth, false, false⟩ input = .ok ()

/-- A character outside strings that the scanner does not look at. -/
def IsNeutral (c : ℕ) : Prop := c ≠ 34 ∧ c ≠ 91 ∧ c ≠ 123 ∧ c ≠ 93 ∧ c ≠ 125

section Characters
variable {depth : ℕ} {input rest : Text}

theorem passes_cons {c : ℕ} (hc : IsNeutral c) : Passes maximum depth (c :: rest) ↔ Passes maximum depth rest := by
  obtain ⟨hquote, hlist, hobject, hlist', hobject'⟩ := hc
  simp [Passes, checkDepth, hquote, hlist, hobject, hlist', hobject']

theorem passes_append {s : Text} (hs : ∀ c ∈ s, IsNeutral c) :
    Passes maximum depth (s ++ rest) ↔ Passes maximum depth rest := by
  induction s with
  | nil => rfl
  | cons c s ih =>
    rw [List.cons_append, passes_cons (hs c List.mem_cons_self)]
    exact ih fun c hc => hs c (List.mem_cons_of_mem _ hc)

theorem passes_open {c : ℕ} (hc : c = 91 ∨ c = 123) :
    Passes maximum depth (c :: rest) ↔ depth + 1 ≤ maximum ∧ Passes maximum (depth + 1) rest := by
  have hquote : c ≠ 34 := by omega
  unfold Passes
  rw [checkDepth]
  simp only [Bool.false_eq_true, if_false, hquote, hc, if_true, throw_eq_error, check_eq_ok]
  push_cast
  refine and_congr_left fun _ => ?_
  omega

theorem passes_close {c : ℕ} (hc : c = 93 ∨ c = 125) :
    Passes maximum (depth + 1) (c :: rest) ↔ Passes maximum depth rest := by
  have hquote : c ≠ 34 := by omega
  have hopen : ¬ (c = 91 ∨ c = 123) := by omega
  simp [Passes, checkDepth, hquote, hopen, hc]

theorem passes_skipBlanks (input : Text) : Passes maximum depth (skipBlanks input) ↔ Passes maximum depth input := by
  have hblank : ∀ c ∈ input.takeWhile isBlank, IsNeutral c := by
    intro c hc
    have := List.mem_takeWhile_imp hc
    simp only [isBlank, Bool.or_eq_true, decide_eq_true_eq] at this
    unfold IsNeutral
    omega
  conv_rhs => rw [← List.takeWhile_append_dropWhile (p := isBlank) (l := input)]
  exact (passes_append hblank).symm

/-- A character of a string that stands for itself. -/
theorem quoted_cons {c : ℕ} (hquote : c ≠ 34) (hslash : c ≠ 92) :
    checkDepth maximum ⟨depth, true, false⟩ (c :: rest) = checkDepth maximum ⟨depth, true, false⟩ rest := by
  simp [checkDepth, hquote, hslash]

theorem quoted_escape (c : ℕ) :
    checkDepth maximum ⟨depth, true, false⟩ (92 :: c :: rest) =
      checkDepth maximum ⟨depth, true, false⟩ rest := by
  simp [checkDepth]

theorem hexValue_plain {c n : ℕ} (h : hexValue c = some n) : c ≠ 34 ∧ c ≠ 92 := by
  constructor
  · rintro rfl
    simp [hexValue, isDigit] at h
  · rintro rfl
    simp [hexValue, isDigit] at h

/-- A string is passed over, escapes and all. -/
theorem scanUnits_passes {units : List (ℕ × Bool)} (h : scanUnits input = .ok (units, rest)) :
    checkDepth maximum ⟨depth, true, false⟩ input = checkDepth maximum ⟨depth, false, false⟩ rest := by
  fun_induction scanUnits input generalizing units rest with
  | case1 => cases h
  | case2 tail =>
    obtain ⟨rfl, rfl⟩ := Prod.mk.inj (Except.ok.inj h)
    simp [checkDepth]
  | case3 a b c d tail a' b' c' d' hd hc hb ha ih =>
    obtain ⟨⟨us, after⟩, hus, h⟩ := bind_eq_ok.mp h
    obtain ⟨rfl, rfl⟩ := Prod.mk.inj (Except.ok.inj h)
    rw [quoted_escape, quoted_cons (hexValue_plain ha).1 (hexValue_plain ha).2,
      quoted_cons (hexValue_plain hb).1 (hexValue_plain hb).2,
      quoted_cons (hexValue_plain hc).1 (hexValue_plain hc).2,
      quoted_cons (hexValue_plain hd).1 (hexValue_plain hd).2]
    exact ih hus
  | case4 => cases h
  | case5 e tail hnot c hc ih =>
    obtain ⟨⟨us, after⟩, hus, h⟩ := bind_eq_ok.mp h
    obtain ⟨rfl, rfl⟩ := Prod.mk.inj (Except.ok.inj h)
    rw [quoted_escape]
    exact ih hus
  | case6 => cases h
  | case7 => cases h
  | case8 c tail h34 hu hslash hc ih =>
    obtain ⟨⟨us, after⟩, hus, h⟩ := bind_eq_ok.mp h
    obtain ⟨rfl, rfl⟩ := Prod.mk.inj (Except.ok.inj h)
    have hplain : c ≠ 92 := by
      rintro rfl
      cases tail with
      | nil => cases hus
      | cons e tail => exact hslash e tail rfl rfl
    rw [quoted_cons h34 hplain]
    exact ih hus

theorem scanString_passes {s : Text} (h : scanString input = .ok (s, rest)) :
    Passes maximum depth (34 :: input) ↔ Passes maximum depth rest := by
  obtain ⟨⟨units, after⟩, hunits, h⟩ := bind_eq_ok.mp h
  obtain ⟨rfl, rfl⟩ := Prod.mk.inj (Except.ok.inj h)
  unfold Passes
  rw [checkDepth]
  simp only [Bool.false_eq_true, if_false, if_true]
  rw [scanUnits_passes hunits]

end Characters

section Words
variable {depth : ℕ} {input rest : Text}

theorem isDigit_neutral {c : ℕ} (h : isDigit c = true) : IsNeutral c := by
  simp only [isDigit, Bool.and_eq_true, decide_eq_true_eq] at h
  unfold IsNeutral
  omega

theorem digits_neutral (input : Text) : ∀ c ∈ input.takeWhile isDigit, IsNeutral c :=
  fun _ hc => isDigit_neutral (List.mem_takeWhile_imp hc)

theorem scanWhole_neutral (input : Text) :
    (scanWhole input).1 ++ (scanWhole input).2 = input ∧ ∀ c ∈ (scanWhole input).1, IsNeutral c :=
  ⟨scanWhole_append input, fun c hc => isDigit_neutral (scanWhole_digits input c hc)⟩

theorem scanFraction_neutral (input : Text) :
    (scanFraction input).1 ++ (scanFraction input).2 = input ∧ ∀ c ∈ (scanFraction input).1, IsNeutral c := by
  unfold scanFraction
  split
  · next tail =>
    dsimp only
    split_ifs
    · simp
    · refine ⟨by simp, List.forall_mem_cons.mpr ⟨by simp [IsNeutral], digits_neutral tail⟩⟩
  · simp

theorem scanSign_neutral (input : Text) :
    (scanSign input).1 ++ (scanSign input).2 = input ∧ ∀ c ∈ (scanSign input).1, IsNeutral c := by
  unfold scanSign
  split
  · split_ifs with hsign
    · refine ⟨rfl, List.forall_mem_singleton.mpr ?_⟩
      unfold IsNeutral
      omega
    · simp
  · simp

theorem scanExponent_neutral (input : Text) :
    (scanExponent input).1 ++ (scanExponent input).2 = input ∧ ∀ c ∈ (scanExponent input).1, IsNeutral c := by
  unfold scanExponent
  split
  · next c tail =>
    obtain ⟨hsplit, hsign⟩ := scanSign_neutral tail
    dsimp only
    split_ifs with hmark
    · constructor
      · rw [List.cons_append, List.cons_append, List.append_assoc, List.takeWhile_append_dropWhile, hsplit]
      · refine List.forall_mem_append.mpr ⟨List.forall_mem_cons.mpr ⟨?_, hsign⟩, digits_neutral _⟩
        unfold IsNeutral
        omega
    · simp
  · simp

theorem scanUnsigned_neutral {read : Text → Text} {negative : Bool} {v : Json}
    (h : scanUnsigned read negative input = .ok (v, rest)) :
    ∃ s, input = s ++ rest ∧ ∀ c ∈ s, IsNeutral c := by
  obtain ⟨hwhole, hwhole'⟩ := scanWhole_neutral input
  obtain ⟨hfraction, hfraction'⟩ := scanFraction_neutral (scanWhole input).2
  obtain ⟨hexponent, hexponent'⟩ := scanExponent_neutral (scanFraction (scanWhole input).2).2
  have hrest : rest = (scanExponent (scanFraction (scanWhole input).2).2).2 := by
    simp only [scanUnsigned, throw_eq_error, check_eq_ok] at h
    obtain ⟨-, h⟩ := h
    split at h
    · exact (Prod.mk.inj (Except.ok.inj h)).2.symm
    · exact (Prod.mk.inj (Except.ok.inj (check_eq_ok.mp h).2)).2.symm
  refine ⟨(scanWhole input).1 ++ ((scanFraction (scanWhole input).2).1 ++
    (scanExponent (scanFraction (scanWhole input).2).2).1), ?_, ?_⟩
  · rw [hrest, List.append_assoc, List.append_assoc, hexponent, hfraction, hwhole]
  · exact List.forall_mem_append.mpr ⟨hwhole', List.forall_mem_append.mpr ⟨hfraction', hexponent'⟩⟩

theorem scanWord_neutral {r : Reader} {v : Json} (h : scanWord r input = .ok (v, rest)) :
    ∃ s, input = s ++ rest ∧ ∀ c ∈ s, IsNeutral c := by
  have hdrop (word : Text) (hinitial : word <+: input) (hword : ∀ c ∈ word, IsNeutral c) :
      ∃ s, input = s ++ input.drop word.length ∧ ∀ c ∈ s, IsNeutral c :=
    ⟨word, by conv_lhs => rw [← List.prefix_iff_eq_append.mp hinitial], hword⟩
  unfold scanWord at h
  split_ifs at h with hnull htrue hfalse
  · obtain ⟨-, rfl⟩ := Prod.mk.inj (Except.ok.inj h)
    exact hdrop (text "null") hnull (by unfold IsNeutral; decide)
  · obtain ⟨-, rfl⟩ := Prod.mk.inj (Except.ok.inj h)
    exact hdrop (text "true") htrue (by unfold IsNeutral; decide)
  · obtain ⟨-, rfl⟩ := Prod.mk.inj (Except.ok.inj h)
    exact hdrop (text "false") hfalse (by unfold IsNeutral; decide)
  · split at h
    · next word hword =>
      obtain ⟨value, -, h⟩ := bind_eq_ok.mp h
      obtain ⟨-, rfl⟩ := Prod.mk.inj (Except.ok.inj h)
      have hneutral : ∀ word ∈ constants, ∀ c ∈ word, IsNeutral c := by
        unfold IsNeutral
        decide
      refine hdrop word ?_ (hneutral word (List.mem_of_find?_eq_some hword))
      simpa using List.find?_some hword
    · unfold scanNumber at h
      split at h
      · obtain ⟨s, hs, hneutral⟩ := scanUnsigned_neutral h
        refine ⟨45 :: s, by rw [hs, List.cons_append], List.forall_mem_cons.mpr ⟨?_, hneutral⟩⟩
        unfold IsNeutral
        decide
      · exact scanUnsigned_neutral h

end Words

section Containers
variable {depth : ℕ} {input rest : Text}

theorem scanElements_passes {α : Type} {close : ℕ} (hclose : close = 93 ∨ close = 125) {element : Scan α}
    {Q : α → Prop} (helement : ∀ input x rest, element input = .ok (x, rest) →
      (Passes maximum (depth + 1) input ↔ Q x ∧ Passes maximum (depth + 1) rest))
    {n : ℕ} {xs : List α} (h : scanElements close element n input = .ok (xs, rest)) :
    Passes maximum (depth + 1) input ↔ (∀ x ∈ xs, Q x) ∧ Passes maximum depth rest := by
  induction n generalizing input xs rest with
  | zero => cases h
  | succ n ih =>
    rw [scanElements] at h
    obtain ⟨⟨x, after⟩, hx, h⟩ := bind_eq_ok.mp h
    rw [helement _ _ _ hx, ← passes_skipBlanks after]
    dsimp only at h
    split at h
    · next c tail hskip =>
      rw [hskip]
      split_ifs at h with hend hcomma
      · obtain ⟨rfl, rfl⟩ := Prod.mk.inj (Except.ok.inj h)
        rw [passes_close (hend ▸ hclose), List.forall_mem_singleton]
      · obtain ⟨⟨ys, after'⟩, hys, h⟩ := bind_eq_ok.mp h
        obtain ⟨rfl, rfl⟩ := Prod.mk.inj (Except.ok.inj h)
        have hneutral : IsNeutral c := by
          unfold IsNeutral
          omega
        rw [passes_cons hneutral, ← passes_skipBlanks, ih hys, List.forall_mem_cons, and_assoc]
    · cases h

theorem scanContainer_passes {α : Type} {close : ℕ} (hclose : close = 93 ∨ close = 125) {element : Scan α}
    {Q : α → Prop} (helement : ∀ input x rest, element input = .ok (x, rest) →
      (Passes maximum (depth + 1) input ↔ Q x ∧ Passes maximum (depth + 1) rest))
    {xs : List α} (h : scanContainer close element input = .ok (xs, rest)) :
    Passes maximum (depth + 1) input ↔ (∀ x ∈ xs, Q x) ∧ Passes maximum depth rest := by
  rw [← passes_skipBlanks]
  unfold scanContainer at h
  split at h
  · next c tail hskip =>
    rw [hskip]
    split_ifs at h with hend
    · subst hend
      obtain ⟨rfl, rfl⟩ := Prod.mk.inj (Except.ok.inj h)
      rw [passes_close hclose]
      simp
    · exact scanElements_passes hclose helement h
  · cases h

theorem scanMember_passes {value : Scan Json} {Q : Json → Prop} {k : ℕ}
    (hvalue : ∀ input v rest, value input = .ok (v, rest) →
      (Passes maximum k input ↔ Q v ∧ Passes maximum k rest))
    {m : Text × Json} (h : scanMember value input = .ok (m, rest)) :
    Passes maximum k input ↔ Q m.2 ∧ Passes maximum k rest := by
  unfold scanMember at h
  split at h
  · obtain ⟨⟨key, after⟩, hkey, h⟩ := bind_eq_ok.mp h
    dsimp only at h
    split at h
    · next tail hskip =>
      obtain ⟨⟨v, after'⟩, hv, h⟩ := bind_eq_ok.mp h
      obtain ⟨rfl, rfl⟩ := Prod.mk.inj (Except.ok.inj h)
      have hcolon : IsNeutral 58 := by
        unfold IsNeutral
        decide
      rw [scanString_passes hkey, ← passes_skipBlanks, hskip, passes_cons hcolon, ← passes_skipBlanks,
        hvalue _ _ _ hv]
    · cases h
  · cases h

/-- The scanner gets over a value that nests no deeper than what is left of the limit. -/
theorem scanOnce_passes {room d k : ℕ} {float : Text → Text} {v : Json}
    (h : scanOnce (.syntactic room float) d input = .ok (v, rest)) (hdepth : depth + k = maximum) :
    Passes maximum depth input ↔ v.Nests k ∧ Passes maximum depth rest := by
  induction d using Nat.strong_induction_on generalizing input v rest depth k with
  | _ d ih =>
    rcases scanOnce_eq_ok.mp h with ⟨tail, s, rfl, hs, rfl⟩ | ⟨j, tail, items, rfl, rfl, hitems, rfl⟩ |
      ⟨j, tail, pairs, members, rfl, rfl, hpairs, hmembers, rfl⟩ | ⟨c, tail, rfl, -, -, -, hword⟩
    · rw [scanString_passes hs, and_iff_right (nests_scalar rfl)]
    · rw [passes_open (Or.inl rfl)]
      rcases k with _ | k
      · refine iff_of_false (fun h => by omega) fun h => not_nests_zero rfl h.1
      have hitem (input : Text) (v : Json) (rest : Text)
          (hx : scanOnce (.syntactic room float) j input = .ok (v, rest)) :
          Passes maximum (depth + 1) input ↔ v.Nests k ∧ Passes maximum (depth + 1) rest :=
        ih j (Nat.lt_succ_self j) hx (by omega)
      rw [scanContainer_passes (Or.inl rfl) hitem hitems, nests_arr]
      exact and_iff_right (by omega)
    · obtain rfl := Except.ok.inj hmembers
      rw [passes_open (Or.inr rfl)]
      rcases k with _ | k
      · refine iff_of_false (fun h => by omega) fun h => not_nests_zero rfl h.1
      have hvalue (input : Text) (v : Json) (rest : Text)
          (hx : scanOnce (.syntactic room float) j input = .ok (v, rest)) :
          Passes maximum (depth + 1) input ↔ v.Nests k ∧ Passes maximum (depth + 1) rest :=
        ih j (Nat.lt_succ_self j) hx (by omega)
      rw [scanContainer_passes (Or.inr rfl) (fun _ _ _ hx => scanMember_passes hvalue hx) hpairs, nests_obj]
      exact and_iff_right (by omega)
    · obtain ⟨s, hs, hneutral⟩ := scanWord_neutral hword
      rw [hs, passes_append hneutral, and_iff_right (nests_scalar (scanWord_scalar hword))]

/-- The scanner accepts a JSON text when its containers nest no deeper than the limit. -/
theorem loads_passes {room : ℕ} {float : Text → Text} {v : Json}
    (h : (Reader.syntactic room float).loads input = .ok v) : Passes maximum 0 input ↔ v.Nests maximum := by
  simp only [Reader.loads, throw_eq_error, check_eq_ok] at h
  obtain ⟨⟨value, rest⟩, hscan, h⟩ := bind_eq_ok.mp h.2
  dsimp only at h
  split_ifs at h with hrest
  obtain rfl := Except.ok.inj h
  rw [← passes_skipBlanks, scanOnce_passes hscan (Nat.zero_add maximum), ← passes_skipBlanks rest,
    hrest]
  exact and_iff_left rfl

end Containers
end Requests
