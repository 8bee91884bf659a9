import AzdSanta.Python.JsonReread

/-! A longer text: where a reader came to an end before it comes to the same one. -/
namespace Python
open Checks

section Decoding
variable {take : Bytes → Option (ℕ × Bytes)}

/-- More bytes behind a code point do not change it. -/
def Extends (take : Bytes → Option (ℕ × Bytes)) : Prop :=
  ∀ ⦃raw c rest⦄, take raw = some (c, rest) → ∀ more, take (raw ++ more) = some (c, rest ++ more)

theorem takeTail_extends : Extends takeTail := by
  intro raw c rest h more
  cases raw with
  | nil => cases h
  | cons b raw =>
    simp only [takeTail, Option.ite_none_right_eq_some, Option.some.injEq, Prod.mk.injEq] at h
    obtain ⟨hb, rfl, rfl⟩ := h
    simp [takeTail, hb]

/-- A continuation byte and what is made of it. -/
theorem takeTail_bind {α : Type} {raw rest more : Bytes} {f : ℕ × Bytes → Option (α × Bytes)} {c : α}
    (hf : ∀ b rest', f (b, rest') = some (c, rest) → f (b, rest' ++ more) = some (c, rest ++ more))
    (h : (takeTail raw >>= f) = some (c, rest)) : (takeTail (raw ++ more) >>= f) = some (c, rest ++ more) := by
  obtain ⟨⟨b, rest'⟩, hb, h⟩ := Option.bind_eq_some_iff.mp h
  rw [takeTail_extends hb more]
  exact hf b rest' h

theorem takeUtf8_extends (pass : Bool) : Extends (takeUtf8 pass) := by
  intro raw c rest h more
  cases raw with
  | nil => cases h
  | cons lead raw =>
    simp only [takeUtf8, List.cons_append] at h ⊢
    generalize lead.toNat = a at h ⊢
    split_ifs at h ⊢ with h1 h2 h3 h4
    · obtain ⟨rfl, rfl⟩ := Prod.mk.inj (Option.some.inj h)
      rfl
    · refine takeTail_bind (fun b rest' h => ?_) h
      obtain ⟨rfl, rfl⟩ := Prod.mk.inj (Option.some.inj h)
      rfl
    · refine takeTail_bind (fun b rest' h => takeTail_bind (fun d rest'' h => ?_) h) h
      generalize (a - 0xE0) * 4096 + b * 64 + d = point at h ⊢
      split_ifs at h ⊢
      obtain ⟨rfl, rfl⟩ := Prod.mk.inj (Option.some.inj h)
      rfl
    · refine takeTail_bind (fun b rest' h => takeTail_bind (fun d rest'' h => takeTail_bind
        (fun e rest''' h => ?_) h) h) h
      generalize (a - 0xF0) * 262144 + b * 4096 + d * 64 + e = point at h ⊢
      split_ifs at h ⊢
      obtain ⟨rfl, rfl⟩ := Prod.mk.inj (Option.some.inj h)
      rfl

theorem decodePoints_initial (htake : Extends take) {n m : ℕ} {raw more : Bytes} {s t : Text}
    (hs : decodePoints take n raw = some s) (ht : decodePoints take m (raw ++ more) = some t) : s <+: t := by
  induction n generalizing raw s t m with
  | zero =>
    cases raw with
    | nil =>
      obtain rfl := Option.some.inj hs
      exact List.nil_prefix
    | cons => cases hs
  | succ n ih =>
    cases raw with
    | nil =>
      obtain rfl := Option.some.inj hs
      exact List.nil_prefix
    | cons b raw =>
      rw [decodePoints] at hs
      · obtain ⟨⟨c, rest⟩, hc, hs⟩ := Option.bind_eq_some_iff.mp hs
        obtain ⟨points, hpoints, hs⟩ := Option.bind_eq_some_iff.mp hs
        obtain rfl := Option.some.inj hs
        cases m with
        | zero => cases ht
        | succ m =>
          rw [decodePoints] at ht
          · rw [htake hc more] at ht
            simp only [Option.bind_eq_bind, Option.bind_some] at ht
            obtain ⟨points', hpoints', ht⟩ := Option.bind_eq_some_iff.mp ht
            obtain rfl := Option.some.inj ht
            exact (List.prefix_cons_inj c).mpr (ih hpoints hpoints')
          · simp
      · simp

theorem decodeUtf8_initial {pass : Bool} {raw raw' : Bytes} {s t : Text} (hraw : raw <+: raw')
    (hs : decodeUtf8 pass raw = some s) (ht : decodeUtf8 pass raw' = some t) : s <+: t := by
  obtain ⟨more, rfl⟩ := hraw
  exact decodePoints_initial (takeUtf8_extends pass) hs ht

end Decoding

section Scanning
variable {r : Reader} {more : Text}

theorem scanUnits_extend {input rest : Text} {units : List (ℕ × Bool)}
    (h : scanUnits input = .ok (units, rest)) : scanUnits (input ++ more) = .ok (units, rest ++ more) := by
  fun_induction scanUnits input generalizing units rest with
  | case1 => cases h
  | case2 tail =>
    obtain ⟨rfl, rfl⟩ := Prod.mk.inj (Except.ok.inj h)
    rfl
  | case3 a b c d tail a' b' c' d' ha hb hc hd ih =>
    obtain ⟨⟨us, after⟩, hus, h⟩ := bind_eq_ok.mp h
    obtain ⟨rfl, rfl⟩ := Prod.mk.inj (Except.ok.inj h)
    simp only [List.cons_append]
    rw [scanUnits, ih hus]
    simp [ha, hb, hc, hd]
  | case4 => cases h
  | case5 e tail hnot c hc ih =>
    obtain ⟨⟨us, after⟩, hus, h⟩ := bind_eq_ok.mp h
    obtain ⟨rfl, rfl⟩ := Prod.mk.inj (Except.ok.inj h)
    simp only [List.cons_append]
    rw [scanUnits_short hc, ih hus]
    rfl
  | case6 => cases h
  | case7 => cases h
  | case8 c tail h34 hu hslash hc ih =>
    obtain ⟨⟨us, after⟩, hus, h⟩ := bind_eq_ok.mp h
    obtain ⟨rfl, rfl⟩ := Prod.mk.inj (Except.ok.inj h)
    have hplain : c ≠ 92 := by
      rintro rfl
      cases tail with
      | nil => cases hus
      | cons e tail => exact hslash e tail rfl rfl
    rw [List.cons_append, scanUnits_plain h34 hplain (not_lt.mp hc), ih hus]
    rfl

theorem scanString_extend {input rest s : Text} (h : scanString input = .ok (s, rest)) :
    scanString (input ++ more) = .ok (s, rest ++ more) := by
  obtain ⟨⟨units, after⟩, hunits, h⟩ := bind_eq_ok.mp h
  obtain ⟨rfl, rfl⟩ := Prod.mk.inj (Except.ok.inj h)
  rw [scanString, scanUnits_extend hunits]
  rfl

theorem skipBlanks_extend {input rest : Text} {c : ℕ} (h : skipBlanks input = c :: rest) :
    skipBlanks (input ++ more) = c :: (rest ++ more) := by
  rw [skipBlanks, List.dropWhile_append, if_neg]
  · rw [← skipBlanks, h]
    rfl
  · rw [← skipBlanks, h]
    simp

/-- A text that goes on, but not with a number. -/
def Ends (rest : Text) : Prop := rest ≠ [] ∧ Stops rest

theorem span_extend {input : Text} (h : input.dropWhile isDigit ≠ []) :
    (input ++ more).takeWhile isDigit = input.takeWhile isDigit ∧
      (input ++ more).dropWhile isDigit = input.dropWhile isDigit ++ more := by
  induction input with
  | nil => exact absurd rfl h
  | cons c rest ih =>
    by_cases hc : isDigit c = true
    · simp only [List.dropWhile_cons_of_pos hc] at h
      simp [hc, ih h]
    · simp [hc]

theorem scanWhole_extend {input whole rest : Text} (h : scanWhole input = (whole, rest)) (hrest : rest ≠ []) :
    scanWhole (input ++ more) = (whole, rest ++ more) := by
  cases input with
  | nil =>
    obtain ⟨-, rfl⟩ := Prod.mk.inj h
    exact absurd rfl hrest
  | cons c tail =>
    by_cases hc : c = 48
    · subst hc
      obtain ⟨rfl, rfl⟩ := Prod.mk.inj h
      rfl
    · have heq (tail : Text) : scanWhole (c :: tail) = ((c :: tail).takeWhile isDigit, (c :: tail).dropWhile isDigit) := by
        rw [scanWhole]
        exact fun r h => hc (List.cons.inj h).1
      rw [heq] at h
      obtain ⟨rfl, rfl⟩ := Prod.mk.inj h
      obtain ⟨htake, hdrop⟩ := @span_extend more _ hrest
      rw [List.cons_append, heq, ← List.cons_append, htake, hdrop]

theorem scanFraction_extend {input fraction rest : Text} (h : scanFraction input = (fraction, rest)) (hrest : rest ≠ [])
    (hdot : rest.head? ≠ some 46) : scanFraction (input ++ more) = (fraction, rest ++ more) := by
  cases input with
  | nil =>
    obtain ⟨-, rfl⟩ := Prod.mk.inj h
    exact absurd rfl hrest
  | cons c tail =>
    by_cases hc : c = 46
    · subst hc
      simp only [scanFraction] at h
      split_ifs at h with hnone
      · obtain ⟨-, rfl⟩ := Prod.mk.inj h
        exact absurd rfl hdot
      · obtain ⟨rfl, rfl⟩ := Prod.mk.inj h
        obtain ⟨htake, hdrop⟩ := @span_extend more _ hrest
        simp [scanFraction, htake, hdrop, hnone]
    · have heq (tail : Text) : scanFraction (c :: tail) = ([], c :: tail) := by
        rw [scanFraction]
        exact fun r h => hc (List.cons.inj h).1
      rw [heq] at h
      obtain ⟨rfl, rfl⟩ := Prod.mk.inj h
      rw [List.cons_append, heq]

theorem scanExponent_extend {input exponent rest : Text} (h : scanExponent input = (exponent, rest)) (hend : Ends rest) :
    scanExponent (input ++ more) = (exponent, rest ++ more) := by
  cases input with
  | nil =>
    obtain ⟨-, rfl⟩ := Prod.mk.inj h
    exact absurd rfl hend.1
  | cons c tail =>
    simp only [scanExponent] at h
    split_ifs at h with hexponent
    · obtain ⟨rfl, rfl⟩ := Prod.mk.inj h
      have hsign : scanSign (tail ++ more) = ((scanSign tail).1, (scanSign tail).2 ++ more) := by
        cases tail with
        | nil => exact absurd rfl hend.1
        | cons d others =>
          simp only [List.cons_append, scanSign]
          split_ifs <;> rfl
      obtain ⟨htake, hdrop⟩ := @span_extend more _ hend.1
      simp [scanExponent, hsign, htake, hdrop, hexponent]
    · obtain ⟨rfl, rfl⟩ := Prod.mk.inj h
      have hc := hend.2 c rfl
      simp [scanExponent, hc.2.2.1, hc.2.2.2]

theorem scanUnsigned_extend {read : Text → Text} {negative : Bool} {input rest : Text} {v : Json}
    (h : scanUnsigned read negative input = .ok (v, rest)) (hend : Ends rest) :
    scanUnsigned read negative (input ++ more) = .ok (v, rest ++ more) := by
  rcases hwhole : scanWhole input with ⟨whole, first⟩
  rcases hfraction : scanFraction first with ⟨fraction, second⟩
  rcases hexponent : scanExponent second with ⟨exponent, third⟩
  simp only [scanUnsigned, hwhole, hfraction, hexponent] at h
  obtain rfl : third = rest := by
    split_ifs at h <;> exact (Prod.mk.inj (Except.ok.inj h)).2
  have hsecond : second ≠ [] ∧ second.head? ≠ some 46 := by
    refine ⟨?_, fun hdot => ?_⟩
    · rintro rfl
      exact hend.1 (Prod.mk.inj hexponent).2.symm
    · obtain ⟨tail, rfl⟩ := List.head?_eq_some_iff.mp hdot
      have hthird : third = 46 :: tail := by simpa [scanExponent] using (congrArg Prod.snd hexponent).symm
      exact (hend.2 46 (by simp [hthird])).2.1 rfl
  have hfirst : first ≠ [] := by
    rintro rfl
    exact hsecond.1 (Prod.mk.inj hfraction).2.symm
  simp only [scanUnsigned, scanWhole_extend hwhole hfirst, scanFraction_extend hfraction hsecond.1 hsecond.2,
    scanExponent_extend hexponent hend]
  split_ifs at h ⊢ <;> obtain ⟨rfl, -⟩ := Prod.mk.inj (Except.ok.inj h) <;> rfl

/-- A value that is written without quotes or brackets. -/
def Json.isWord : Json → Bool
  | .null | .bool _ | .int _ | .float _ => true
  | _ => false

theorem scanNumber_isWord {read : Text → Text} {input rest : Text} {v : Json}
    (h : scanNumber read input = .ok (v, rest)) : v.isWord = true := by
  have hunsigned (negative : Bool) (input : Text)
      (h : scanUnsigned read negative input = .ok (v, rest)) : v.isWord = true := by
    simp only [scanUnsigned, throw_eq_error, check_eq_ok] at h
    obtain ⟨-, h⟩ := h
    split at h
    · obtain ⟨rfl, -⟩ := Prod.mk.inj (Except.ok.inj h)
      rfl
    · obtain ⟨-, h⟩ := check_eq_ok.mp h
      obtain ⟨rfl, -⟩ := Prod.mk.inj (Except.ok.inj h)
      rfl
  unfold scanNumber at h
  split at h
  · exact hunsigned true _ h
  · exact hunsigned false _ h

theorem scanUnsigned_start {read : Text → Text} {negative : Bool} {input rest : Text} {v : Json}
    (h : scanUnsigned read negative input = .ok (v, rest)) : ∃ c tail, input = c :: tail ∧ isDigit c = true := by
  have hwhole : (scanWhole input).1 ≠ [] := by
    intro hnone
    simp only [scanUnsigned, hnone] at h
    cases h
  cases input with
  | nil => exact absurd rfl hwhole
  | cons c tail =>
    refine ⟨c, tail, rfl, ?_⟩
    by_contra hc
    have hne : c ≠ 48 := by
      rintro rfl
      exact hc rfl
    rw [scanWhole] at hwhole
    · exact hwhole (List.takeWhile_cons_of_neg hc)
    · exact fun r h => hne (List.cons.inj h).1

theorem scanWord_constant {word : Text} (hword : word ∈ constants) (rest : Text) :
    scanWord r (word ++ rest) = (r.constant word).bind fun v => .ok (v, rest) := by
  simp only [constants, List.mem_cons, List.not_mem_nil, or_false] at hword
  rcases hword with rfl | rfl | rfl <;> simp [scanWord, constants, text]
  all_goals rfl

/-- A word, or a number that does not go on. -/
theorem scanWord_extend {input rest : Text} {v : Json} (h : scanWord r input = .ok (v, rest))
    (hend : v.isWord = true → Ends rest) : input ≠ [] ∧ scanWord r (input ++ more) = .ok (v, rest ++ more) := by
  have hnull : text "null" ≠ [] := by decide
  have htrue : text "true" ≠ [] := by decide
  have hfalse : text "false" ≠ [] := by decide
  unfold scanWord at h
  split_ifs at h with h₁ h₂ h₃
  · obtain ⟨tail, rfl⟩ := h₁
    obtain ⟨rfl, rfl⟩ := Prod.mk.inj (Except.ok.inj h)
    exact ⟨by simp [hnull], by rw [List.append_assoc, scanWord_null]; rfl⟩
  · obtain ⟨tail, rfl⟩ := h₂
    obtain ⟨rfl, rfl⟩ := Prod.mk.inj (Except.ok.inj h)
    exact ⟨by simp [htrue], by rw [List.append_assoc, scanWord_true]; rfl⟩
  · obtain ⟨tail, rfl⟩ := h₃
    obtain ⟨rfl, rfl⟩ := Prod.mk.inj (Except.ok.inj h)
    exact ⟨by simp [hfalse], by rw [List.append_assoc, scanWord_false]; rfl⟩
  · split at h
    · next word hword =>
      obtain ⟨tail, rfl⟩ := by simpa using List.find?_some hword
      obtain ⟨value, hvalue, h⟩ := bind_eq_ok.mp h
      obtain ⟨rfl, rfl⟩ := Prod.mk.inj (Except.ok.inj h)
      have hmem := List.mem_of_find?_eq_some hword
      refine ⟨fun hnil => ?_, ?_⟩
      · have hne : word ≠ [] := by
          rintro rfl
          exact absurd hmem (by decide)
        exact hne (List.append_eq_nil_iff.mp hnil).1
      · rw [List.append_assoc, scanWord_constant hmem, hvalue, List.drop_left]
        rfl
    · replace hend := hend (scanNumber_isWord h)
      by_cases hminus : input.head? = some 45
      · obtain ⟨tail, rfl⟩ := List.head?_eq_some_iff.mp hminus
        obtain ⟨c, others, rfl, hc⟩ := scanUnsigned_start h
        refine ⟨by simp, ?_⟩
        rw [List.cons_append, List.cons_append, scanWord_minus hc]
        exact scanUnsigned_extend h hend
      · rw [scanNumber] at h
        · obtain ⟨c, others, rfl, hc⟩ := scanUnsigned_start h
          refine ⟨by simp, ?_⟩
          rw [List.cons_append, scanWord_digit hc]
          exact scanUnsigned_extend h hend
        · rintro tail rfl
          exact hminus rfl

/-- Behind an element of a container comes a comma or the end. -/
def Separated (close : ℕ) (rest : Text) : Prop := ∃ c tail, skipBlanks rest = c :: tail ∧ (c = close ∨ c = 44)

theorem Separated.ends {close : ℕ} (hclose : close = 93 ∨ close = 125) {rest : Text} (h : Separated close rest) :
    Ends rest := by
  obtain ⟨c, tail, hskip, hc⟩ := h
  cases rest with
  | nil => cases hskip
  | cons d others =>
    refine ⟨by simp, fun d' hd' => ?_⟩
    obtain rfl : d = d' := by simpa using hd'
    by_cases hblank : isBlank d = true
    · simp only [isBlank, Bool.or_eq_true, decide_eq_true_eq] at hblank
      rcases hblank with ((rfl | rfl) | rfl) | rfl <;> decide
    · rw [skipBlanks, List.dropWhile_cons_of_neg hblank] at hskip
      obtain ⟨rfl, -⟩ := List.cons.inj hskip
      rcases hc with rfl | rfl
      · rcases hclose with rfl | rfl <;> decide
      · decide

theorem scanElements_extend {α : Type} {close : ℕ} {element : Scan α}
    (helement : ∀ input x rest, element input = .ok (x, rest) → Separated close rest →
      input ≠ [] ∧ element (input ++ more) = .ok (x, rest ++ more)) {n m : ℕ} (hn : n ≤ m) {input rest : Text}
    {xs : List α} (h : scanElements close element n input = .ok (xs, rest)) :
    input ≠ [] ∧ scanElements close element m (input ++ more) = .ok (xs, rest ++ more) := by
  induction n generalizing input xs rest m with
  | zero => cases h
  | succ n ih =>
    obtain ⟨m, rfl⟩ : ∃ e, m = e + 1 := ⟨m - 1, by omega⟩
    rw [scanElements] at h ⊢
    obtain ⟨⟨x, after⟩, hx, h⟩ := bind_eq_ok.mp h
    dsimp only at h
    split at h
    · next c tail hskip =>
      have hblanks := @skipBlanks_extend more _ _ _ hskip
      split_ifs at h with hclose hcomma
      · obtain ⟨rfl, rfl⟩ := Prod.mk.inj (Except.ok.inj h)
        obtain ⟨hne, hmore⟩ := helement _ _ _ hx ⟨c, tail, hskip, .inl hclose⟩
        exact ⟨hne, by simp [hmore, hblanks, hclose]⟩
      · obtain ⟨⟨ys, last⟩, hys, h⟩ := bind_eq_ok.mp h
        obtain ⟨rfl, rfl⟩ := Prod.mk.inj (Except.ok.inj h)
        obtain ⟨hne, hmore⟩ := helement _ _ _ hx ⟨c, tail, hskip, .inr hcomma⟩
        obtain ⟨htail, hrest⟩ := ih (show n ≤ m by omega) hys
        obtain ⟨d, others, hd⟩ := List.exists_cons_of_ne_nil htail
        rw [hd, List.cons_append, ← skipBlanks_extend hd] at hrest
        subst hcomma
        exact ⟨hne, by simp [hmore, hblanks, hclose, hrest]⟩
    · cases h

theorem scanContainer_extend {α : Type} {close : ℕ} {element : Scan α}
    (helement : ∀ input x rest, element input = .ok (x, rest) → Separated close rest →
      input ≠ [] ∧ element (input ++ more) = .ok (x, rest ++ more)) {input rest : Text} {xs : List α}
    (h : scanContainer close element input = .ok (xs, rest)) :
    scanContainer close element (input ++ more) = .ok (xs, rest ++ more) := by
  unfold scanContainer at h ⊢
  split at h
  · next c tail hskip =>
    simp only [skipBlanks_extend hskip]
    split_ifs at h ⊢
    · obtain ⟨rfl, rfl⟩ := Prod.mk.inj (Except.ok.inj h)
      rfl
    · exact (scanElements_extend helement (by simp) h).2
  · cases h

theorem scanMember_extend {value : Scan Json} {close : ℕ}
    (hvalue : ∀ input x rest, value input = .ok (x, rest) → Separated close rest →
      input ≠ [] ∧ value (input ++ more) = .ok (x, rest ++ more)) {input rest : Text} {m : Text × Json}
    (h : scanMember value input = .ok (m, rest)) (hrest : Separated close rest) :
    input ≠ [] ∧ scanMember value (input ++ more) = .ok (m, rest ++ more) := by
  unfold scanMember at h
  split at h
  · obtain ⟨⟨key, after⟩, hkey, h⟩ := bind_eq_ok.mp h
    dsimp only at h
    split at h
    · next tail hskip =>
      obtain ⟨⟨v, last⟩, hv, h⟩ := bind_eq_ok.mp h
      obtain ⟨rfl, rfl⟩ := Prod.mk.inj (Except.ok.inj h)
      obtain ⟨hne, hmore⟩ := hvalue _ _ _ hv hrest
      obtain ⟨d, others, hd⟩ := List.exists_cons_of_ne_nil hne
      rw [hd, List.cons_append, ← skipBlanks_extend hd] at hmore
      refine ⟨by simp, ?_⟩
      simp [scanMember, scanString_extend hkey, skipBlanks_extend hskip, hmore]
    · cases h
  · cases h

/-- A value ends where its last quote or bracket stands, or in front of what ends a number. -/
theorem scanOnce_extend {d : ℕ} {input rest : Text} {v : Json} (h : scanOnce r d input = .ok (v, rest))
    (hend : v.isWord = true → Ends rest) : input ≠ [] ∧ scanOnce r d (input ++ more) = .ok (v, rest ++ more) := by
  induction d generalizing input v rest with
  | zero =>
    unfold scanOnce at h
    split at h
    · obtain ⟨⟨s, after⟩, hs, h⟩ := bind_eq_ok.mp h
      obtain ⟨rfl, rfl⟩ := Prod.mk.inj (Except.ok.inj h)
      exact ⟨by simp, by simp [scanOnce, scanString_extend hs]⟩
    · next hquote _ =>
      split_ifs at h with hopen
      obtain ⟨-, hmore⟩ := @scanWord_extend _ more _ _ _ h hend
      refine ⟨by simp, ?_⟩
      rw [List.cons_append, scanOnce, if_neg hopen]
      · exact hmore
      · exact hquote
    · contradiction
    · cases h
  | succ d ih =>
    unfold scanOnce at h
    split at h
    · obtain ⟨⟨s, after⟩, hs, h⟩ := bind_eq_ok.mp h
      obtain ⟨rfl, rfl⟩ := Prod.mk.inj (Except.ok.inj h)
      exact ⟨by simp, by simp [scanOnce, scanString_extend hs]⟩
    · contradiction
    · next hquote heq =>
      obtain rfl := Nat.succ.inj heq
      split_ifs at h with hlist hobject
      · obtain ⟨⟨items, after⟩, hitems, h⟩ := bind_eq_ok.mp h
        obtain ⟨rfl, rfl⟩ := Prod.mk.inj (Except.ok.inj h)
        have hmore := scanContainer_extend (fun _ _ _ hx hrest => ih hx fun _ => hrest.ends (.inl rfl)) hitems
        subst hlist
        exact ⟨by simp, by simp [scanOnce, hmore]⟩
      · obtain ⟨⟨pairs, after⟩, hpairs, h⟩ := bind_eq_ok.mp h
        obtain ⟨members, hmembers, h⟩ := bind_eq_ok.mp h
        obtain ⟨rfl, rfl⟩ := Prod.mk.inj (Except.ok.inj h)
        have hmore := scanContainer_extend (fun _ _ _ hx hrest =>
          scanMember_extend (fun _ _ _ hv hrest => ih hv fun _ => hrest.ends (.inr rfl)) hx hrest) hpairs
        subst hobject
        exact ⟨by simp, by simp [scanOnce, hmore, hmembers]⟩
      · obtain ⟨-, hmore⟩ := @scanWord_extend _ more _ _ _ h hend
        refine ⟨by simp, ?_⟩
        rw [List.cons_append, scanOnce, if_neg hlist, if_neg hobject]
        · exact hmore
        · exact hquote
    · cases h

/-- Two texts of which one starts with the other are the same value, if it stands in quotes or brackets. -/
theorem loads_initial {s t : Text} (hst : s <+: t) {v v' : Json} (hs : r.loads s = .ok v)
    (ht : r.loads t = .ok v') (hv : v.isWord = false) : v = v' := by
  obtain ⟨more, rfl⟩ := hst
  simp only [Reader.loads, throw_eq_error, check_eq_ok] at hs ht
  obtain ⟨⟨value, rest⟩, hscan, hs⟩ := bind_eq_ok.mp hs.2
  obtain ⟨⟨value', rest'⟩, hscan', ht⟩ := bind_eq_ok.mp ht.2
  dsimp only at hs ht
  split_ifs at hs ht
  obtain rfl := Except.ok.inj hs
  obtain rfl := Except.ok.inj ht
  obtain ⟨hne, hmore⟩ := @scanOnce_extend _ more _ _ _ _ hscan (by simp [hv])
  obtain ⟨c, others, hc⟩ := List.exists_cons_of_ne_nil hne
  rw [hc, List.cons_append, ← skipBlanks_extend hc, hscan'] at hmore
  exact (Prod.mk.inj (Except.ok.inj hmore)).1.symm

end Scanning

section Words
variable {r : Reader}

/-- A reader without a hook that changes what it reads. -/
structure Literal (r : Reader) : Prop where
  constant : ∀ word v, r.constant word = .ok v → ∃ repr, v = .float repr
  pairs : ∀ pairs members, r.pairs pairs = .ok members → members = pairs

theorem scanWord_isWord (hr : Literal r) {input rest : Text} {v : Json}
    (h : scanWord r input = .ok (v, rest)) : v.isWord = true := by
  unfold scanWord at h
  split_ifs at h
  · obtain ⟨rfl, -⟩ := Prod.mk.inj (Except.ok.inj h)
    rfl
  · obtain ⟨rfl, -⟩ := Prod.mk.inj (Except.ok.inj h)
    rfl
  · obtain ⟨rfl, -⟩ := Prod.mk.inj (Except.ok.inj h)
    rfl
  · split at h
    · obtain ⟨value, hvalue, h⟩ := bind_eq_ok.mp h
      obtain ⟨rfl, -⟩ := Prod.mk.inj (Except.ok.inj h)
      obtain ⟨repr, rfl⟩ := hr.constant _ _ hvalue
      rfl
    · exact scanNumber_isWord h

end Words

section Length
variable {r : Reader} {w : Writer}

theorem scanUnits_length {input rest : Text} {units : List (ℕ × Bool)}
    (h : scanUnits input = .ok (units, rest)) : units.length + rest.length < input.length := by
  fun_induction scanUnits input generalizing units rest with
  | case1 | case4 | case6 | case7 => cases h
  | case2 tail =>
    obtain ⟨rfl, rfl⟩ := Prod.mk.inj (Except.ok.inj h)
    simp
  | case3 a b c d tail a' b' c' d' ha hb hc hd ih =>
    obtain ⟨⟨us, after⟩, hus, h⟩ := bind_eq_ok.mp h
    obtain ⟨rfl, rfl⟩ := Prod.mk.inj (Except.ok.inj h)
    have hshort := ih hus
    simp only [List.length_cons]
    omega
  | case5 e tail hnot c hc ih =>
    obtain ⟨⟨us, after⟩, hus, h⟩ := bind_eq_ok.mp h
    obtain ⟨rfl, rfl⟩ := Prod.mk.inj (Except.ok.inj h)
    have hshort := ih hus
    simp only [List.length_cons]
    omega
  | case8 c tail h34 hu hslash hc ih =>
    obtain ⟨⟨us, after⟩, hus, h⟩ := bind_eq_ok.mp h
    obtain ⟨rfl, rfl⟩ := Prod.mk.inj (Except.ok.inj h)
    have hshort := ih hus
    simp only [List.length_cons]
    omega

theorem joinUnits_length (units : List (ℕ × Bool)) : (joinUnits units).length ≤ units.length := by
  fun_induction joinUnits units with
  | case1 => simp
  | case2 => simp
  | case3 c escaped d escaped' units hpair ih =>
    simp only [List.length_cons]
    omega
  | case4 c escaped d escaped' units hpair ih =>
    simp only [List.length_cons] at ih ⊢
    omega

theorem scanString_length {input rest s : Text} (h : scanString input = .ok (s, rest)) :
    s.length + rest.length < input.length := by
  obtain ⟨⟨units, after⟩, hunits, h⟩ := bind_eq_ok.mp h
  obtain ⟨rfl, rfl⟩ := Prod.mk.inj (Except.ok.inj h)
  have hlength := scanUnits_length hunits
  have hjoin := joinUnits_length units
  omega

theorem skipBlanks_length (input : Text) : (skipBlanks input).length ≤ input.length :=
  (List.dropWhile_suffix isBlank).length_le

/-- Elements with the character behind each of them. -/
theorem scanElements_length {α : Type} {close : ℕ} {element : Scan α} {Q : α → Prop} {size : α → ℕ}
    (helement : ∀ input x rest, element input = .ok (x, rest) → Q x → size x + rest.length ≤ input.length)
    {n : ℕ} {input rest : Text} {xs : List α} (h : scanElements close element n input = .ok (xs, rest))
    (hxs : ∀ x ∈ xs, Q x) :
    0 < xs.length ∧ (xs.map size).sum + xs.length + rest.length ≤ input.length := by
  induction n generalizing input xs rest with
  | zero => cases h
  | succ n ih =>
    rw [scanElements] at h
    obtain ⟨⟨x, after⟩, hx, h⟩ := bind_eq_ok.mp h
    dsimp only at h
    split at h
    · next c tail hskip =>
      have hblanks := skipBlanks_length after
      rw [hskip, List.length_cons] at hblanks
      split_ifs at h
      · obtain ⟨rfl, rfl⟩ := Prod.mk.inj (Except.ok.inj h)
        have hfirst := helement _ _ _ hx (hxs x List.mem_cons_self)
        simp only [List.map_cons, List.map_nil, List.sum_cons, List.sum_nil, List.length_cons, List.length_nil]
        omega
      · obtain ⟨⟨ys, last⟩, hys, h⟩ := bind_eq_ok.mp h
        obtain ⟨rfl, rfl⟩ := Prod.mk.inj (Except.ok.inj h)
        have hfirst := helement _ _ _ hx (hxs x List.mem_cons_self)
        obtain ⟨-, hrest⟩ := ih hys fun y hy => hxs y (List.mem_cons_of_mem _ hy)
        have hgap := skipBlanks_length tail
        simp only [List.map_cons, List.sum_cons, List.length_cons]
        omega
    · cases h

theorem scanContainer_length {α : Type} {close : ℕ} {element : Scan α} {Q : α → Prop} {size : α → ℕ}
    (helement : ∀ input x rest, element input = .ok (x, rest) → Q x → size x + rest.length ≤ input.length)
    {input rest : Text} {xs : List α} (h : scanContainer close element input = .ok (xs, rest))
    (hxs : ∀ x ∈ xs, Q x) : (xs.map size).sum + max xs.length 1 + rest.length ≤ input.length := by
  unfold scanContainer at h
  have hblanks := skipBlanks_length input
  split at h
  · next c tail hskip =>
    rw [hskip, List.length_cons] at hblanks
    split_ifs at h
    · obtain ⟨rfl, rfl⟩ := Prod.mk.inj (Except.ok.inj h)
      simp only [List.map_nil, List.sum_nil, List.length_nil]
      omega
    · obtain ⟨hpos, helements⟩ := scanElements_length helement h hxs
      rw [List.length_cons] at helements
      omega
  · cases h

/-- A printable character of ASCII that is never escaped. -/
def isPlain (c : ℕ) : Bool := 32 ≤ c && c < 127 && c ≠ 34 && c ≠ 92

theorem escapeChar_plain {c : ℕ} (hc : isPlain c = true) (ascii : Bool) : escapeChar ascii c = [c] := by
  simp only [isPlain, Bool.and_eq_true, decide_eq_true_eq] at hc
  unfold escapeChar
  split_ifs <;> first | rfl | omega

/-- Objects, integers and plain text. -/
def Json.Simple : ℕ → Json → Prop
  | _, .int _ => True
  | _, .str s => ∀ c ∈ s, isPlain c = true
  | depth + 1, .obj members => ∀ m ∈ members, (∀ c ∈ m.1, isPlain c = true) ∧ m.2.Simple depth
  | _, _ => False

theorem quote_plain {s : Text} (hs : ∀ c ∈ s, isPlain c = true) (ascii : Bool) :
    quote ascii s = 34 :: s ++ [34] := by
  have hmap : s.flatMap (escapeChar ascii) = s := by
    rw [List.flatMap_congr fun c hc => escapeChar_plain (hs c hc) ascii, List.flatMap_singleton']
  rw [quote, hmap]

theorem printInt_length {digits : Text} (hdigits : ∀ c ∈ digits, isDigit c = true) (hne : digits ≠ [])
    {negative : Bool} {t : Text}
    (h : printInt (if negative then -readDecimal digits else readDecimal digits) = .ok t) :
    t.length ≤ digits.length + if negative then 1 else 0 := by
  have hlength : (decimal (readDecimal digits)).length ≤ digits.length := by
    obtain ⟨k, hk⟩ := Nat.exists_eq_succ_of_ne_zero (List.length_pos_of_ne_nil hne).ne'
    have hlt := readDecimal_lt hdigits
    rw [hk] at hlt ⊢
    exact decimal_length_le hlt
  simp only [printInt, natAbs_signed, throw_eq_error, check_eq_ok, pure_eq_ok, Except.ok.injEq] at h
  obtain ⟨-, rfl⟩ := h
  cases negative with
  | true =>
    simp only [if_true]
    split_ifs
    · simpa using hlength
    · omega
  | false =>
    have hnot : ¬ ((readDecimal digits : ℤ) < 0) := by omega
    simpa [hnot] using hlength

theorem scanWhole_append (input : Text) : (scanWhole input).1 ++ (scanWhole input).2 = input := by
  unfold scanWhole
  split
  · rfl
  · exact List.takeWhile_append_dropWhile

theorem scanFraction_none {input : Text} (h : (scanFraction input).1 = []) : (scanFraction input).2 = input := by
  revert h
  unfold scanFraction
  split
  · dsimp only
    split_ifs <;> simp
  · exact fun _ => rfl

theorem scanExponent_none {input : Text} (h : (scanExponent input).1 = []) : (scanExponent input).2 = input := by
  revert h
  unfold scanExponent
  split
  · dsimp only
    split_ifs <;> simp
  · exact fun _ => rfl

theorem scanNumber_length {read : Text → Text} {input rest : Text} {n : ℤ}
    (h : scanNumber read input = .ok (.int n, rest)) {t : Text} (ht : printInt n = .ok t) :
    t.length + rest.length ≤ input.length := by
  have hunsigned (negative : Bool) (input : Text)
      (h : scanUnsigned read negative input = .ok (.int n, rest)) :
      t.length + rest.length ≤ input.length + if negative then 1 else 0 := by
    simp only [scanUnsigned, throw_eq_error, check_eq_ok] at h
    obtain ⟨hne, h⟩ := h
    split at h
    · cases (Prod.mk.inj (Except.ok.inj h)).1
    · next hfloat =>
      obtain ⟨-, h⟩ := check_eq_ok.mp h
      obtain ⟨hn, rfl⟩ := Prod.mk.inj (Except.ok.inj h)
      obtain rfl := Json.int.inj hn
      rw [not_or, not_not, not_not] at hfloat
      have hprint := printInt_length (scanWhole_digits input) hne ht
      have hwhole := congrArg List.length (scanWhole_append input)
      rw [List.length_append] at hwhole
      rw [scanExponent_none hfloat.2, scanFraction_none hfloat.1]
      omega
  unfold scanNumber at h
  split at h
  · have hlength := hunsigned true _ h
    simpa using hlength
  · have hlength := hunsigned false _ h
    simpa using hlength

theorem scanWord_int (hr : Literal r) {input rest : Text} {n : ℤ} (h : scanWord r input = .ok (.int n, rest)) :
    scanNumber r.float input = .ok (.int n, rest) := by
  unfold scanWord at h
  split_ifs at h
  · cases (Prod.mk.inj (Except.ok.inj h)).1
  · cases (Prod.mk.inj (Except.ok.inj h)).1
  · cases (Prod.mk.inj (Except.ok.inj h)).1
  · split at h
    · obtain ⟨value, hvalue, h⟩ := bind_eq_ok.mp h
      obtain ⟨repr, rfl⟩ := hr.constant _ _ hvalue
      cases (Prod.mk.inj (Except.ok.inj h)).1
    · exact h

theorem intercalate_length {c : ℕ} {parts : List Text} :
    (List.intercalate [c] parts).length + 1 = (parts.map List.length).sum + max parts.length 1 := by
  induction parts with
  | nil => rfl
  | cons part parts ih =>
    cases parts with
    | nil => simp
    | cons next parts =>
      rw [List.intercalate_cons_cons]
      simp only [List.length_append, List.length_cons, List.length_nil, List.map_cons, List.sum_cons] at ih ⊢
      omega

theorem scanWord_length (hr : Literal r) {d : ℕ} {input rest : Text} {v : Json}
    (h : scanWord r input = .ok (v, rest)) (hv : v.Simple d) {t : Text} (ht : w.print d v = .ok t) :
    t.length + rest.length ≤ input.length := by
  have hword := scanWord_isWord hr h
  cases v with
  | int n =>
    rw [Writer.print] at ht
    exact scanNumber_length (scanWord_int hr h) ht
  | null | bool | float => cases d <;> cases hv
  | str | arr | obj => cases hword

theorem quoted_length (ascii : Bool) {input rest s : Text} (h : scanString input = .ok (s, rest))
    (hs : ∀ c ∈ s, isPlain c = true) :
    (quote ascii s).length + rest.length ≤ input.length + 1 := by
  have hstring := scanString_length h
  rw [quote_plain hs]
  simp only [List.length_cons, List.length_append, List.length_nil]
  omega

theorem scanMember_length {value : Scan Json} {Q : Json → Prop} {size : Json → ℕ}
    (hvalue : ∀ input x rest, value input = .ok (x, rest) → Q x → size x + rest.length ≤ input.length)
    {ascii : Bool} {input rest : Text} {m : Text × Json} (h : scanMember value input = .ok (m, rest))
    (hkey : ∀ c ∈ m.1, isPlain c = true) (hm : Q m.2) :
    (quote ascii m.1).length + 1 + size m.2 + rest.length ≤ input.length := by
  unfold scanMember at h
  split at h
  · obtain ⟨⟨key, after⟩, hscan, h⟩ := bind_eq_ok.mp h
    dsimp only at h
    split at h
    · next tail hskip =>
      obtain ⟨⟨v, last⟩, hv, h⟩ := bind_eq_ok.mp h
      obtain ⟨rfl, rfl⟩ := Prod.mk.inj (Except.ok.inj h)
      have hquoted := quoted_length ascii hscan hkey
      have hblanks := skipBlanks_length after
      have hgap := skipBlanks_length tail
      have hlength := hvalue _ _ _ hv hm
      rw [hskip, List.length_cons] at hblanks
      dsimp only
      rw [List.length_cons]
      omega
    · cases h
  · cases h

theorem forall₂_map_eq {α β γ : Type} {R : α → β → Prop} {f : α → γ} {g : β → γ} {xs : List α} {ys : List β}
    (h : List.Forall₂ R xs ys) (hR : ∀ x y, R x y → f x = g y) : xs.map f = ys.map g := by
  induction h with
  | nil => rfl
  | cons hxy _ ih => rw [List.map_cons, List.map_cons, hR _ _ hxy, ih]

/-- What is written without blanks is no longer than what was read. -/
theorem scanOnce_length (hr : Literal r) (hsorted : w.sorted = false) (hcomma : w.comma = [44])
    (hcolon : w.colon = [58]) {d : ℕ} {input rest : Text} {v : Json} (h : scanOnce r d input = .ok (v, rest))
    (hv : v.Simple d) {t : Text} (ht : w.print d v = .ok t) : t.length + rest.length ≤ input.length := by
  induction d generalizing input v rest t with
  | zero =>
    unfold scanOnce at h
    split at h
    · obtain ⟨⟨s, after⟩, hs, h⟩ := bind_eq_ok.mp h
      obtain ⟨rfl, rfl⟩ := Prod.mk.inj (Except.ok.inj h)
      obtain rfl := Except.ok.inj ht
      exact quoted_length w.ascii hs hv
    · split_ifs at h
      exact scanWord_length hr h hv ht
    · contradiction
    · cases h
  | succ d ih =>
    unfold scanOnce at h
    split at h
    · obtain ⟨⟨s, after⟩, hs, h⟩ := bind_eq_ok.mp h
      obtain ⟨rfl, rfl⟩ := Prod.mk.inj (Except.ok.inj h)
      obtain rfl := Except.ok.inj ht
      exact quoted_length w.ascii hs hv
    · contradiction
    · next heq =>
      obtain rfl := Nat.succ.inj heq
      split_ifs at h
      · obtain ⟨⟨items, after⟩, hitems, h⟩ := bind_eq_ok.mp h
        obtain ⟨rfl, rfl⟩ := Prod.mk.inj (Except.ok.inj h)
        cases hv
      · obtain ⟨⟨pairs, after⟩, hpairs, h⟩ := bind_eq_ok.mp h
        obtain ⟨members, hmembers, h⟩ := bind_eq_ok.mp h
        obtain ⟨rfl, rfl⟩ := Prod.mk.inj (Except.ok.inj h)
        obtain rfl := hr.pairs _ _ hmembers
        simp only [Writer.print, hsorted, Bool.false_eq_true, if_false, bind_eq_ok, mapM_eq_ok, pure_eq_ok,
          Except.ok.injEq] at ht
        obtain ⟨parts, hparts, rfl⟩ := ht
        -- The size of a value is the length of its text.
        let size (v : Json) : ℕ := (w.print d v).toOption.elim 0 List.length
        have hsize (input : Text) (x : Json) (rest : Text) (hx : scanOnce r d input = .ok (x, rest))
            (hsimple : x.Simple d ∧ ∃ part, w.print d x = .ok part) :
            size x + rest.length ≤ input.length := by
          obtain ⟨hsimple, part, hpart⟩ := hsimple
          simpa [size, hpart, Except.toOption] using ih hx hsimple hpart
        have hprinted : ∀ m ∈ members, ∃ part, w.print d m.2 = .ok part := by
          refine forall₂_right hparts.flip ?_
          rintro part - m ⟨value, hvalue, -⟩
          exact ⟨value, hvalue⟩
        have hsum : parts.map List.length =
            members.map fun m => (quote w.ascii m.1).length + 1 + size m.2 := by
          refine (forall₂_map_eq hparts ?_).symm
          rintro m part ⟨value, hvalue, rfl⟩
          simp only [size, hvalue, hcolon, Except.toOption, Option.elim_some, List.length_append, List.length_cons,
            List.length_nil]
        have hall := @scanContainer_length (Text × Json) _ _
          (fun m => (∀ c ∈ m.1, isPlain c = true) ∧ m.2.Simple d ∧ ∃ part, w.print d m.2 = .ok part)
          (fun m => (quote w.ascii m.1).length + 1 + size m.2)
          (fun _ _ _ hx hm => scanMember_length hsize hx hm.1 hm.2) _ _ _ hpairs
          fun m hm => ⟨(hv m hm).1, (hv m hm).2, hprinted m hm⟩
        have hlength : parts.length = members.length := hparts.length_eq.symm
        have htext := @intercalate_length 44 parts
        rw [hsum, hlength] at htext
        simp only [hcomma, List.length_cons, List.length_append, List.length_nil]
        omega
      · exact scanWord_length hr h hv ht
    · cases h
theorem loads_length (hr : Literal r) (hsorted : w.sorted = false) (hcomma : w.comma = [44])
    (hcolon : w.colon = [58]) {input : Text} {v : Json} (h : r.loads input = .ok v) (hv : v.Simple r.depth)
    {t : Text} (ht : w.print r.depth v = .ok t) : t.length ≤ input.length := by
  simp only [Reader.loads, throw_eq_error, check_eq_ok] at h
  obtain ⟨⟨value, rest⟩, hscan, h⟩ := bind_eq_ok.mp h.2
  dsimp only at h
  split_ifs at h
  obtain rfl := Except.ok.inj h
  have hlength := scanOnce_length hr hsorted hcomma hcolon hscan hv ht
  have hblanks := skipBlanks_length input
  omega

theorem decodePoints_length {take : Bytes → Option (ℕ × Bytes)} {n : ℕ} {raw : Bytes} {t : Text}
    (h : decodePoints take n raw = some t) : t.length ≤ n := by
  induction n generalizing raw t with
  | zero =>
    cases raw with
    | nil =>
      obtain rfl := Option.some.inj h
      simp
    | cons => cases h
  | succ n ih =>
    cases raw with
    | nil =>
      obtain rfl := Option.some.inj h
      simp
    | cons b raw =>
      rw [decodePoints] at h
      · obtain ⟨⟨c, rest⟩, -, h⟩ := Option.bind_eq_some_iff.mp h
        obtain ⟨points, hpoints, h⟩ := Option.bind_eq_some_iff.mp h
        obtain rfl := Option.some.inj h
        simpa using ih hpoints
      · simp

theorem decodeDetected_length {raw : Bytes} {t : Text} (h : decodeDetected raw = some t) :
    t.length ≤ raw.length := by
  have hdrop (n : ℕ) : (raw.drop n).length ≤ raw.length := by simp
  unfold decodeDetected at h
  dsimp only at h
  split_ifs at h
  · exact (decodePoints_length h).trans (hdrop 4)
  · exact (decodePoints_length h).trans (hdrop 4)
  · exact (decodePoints_length h).trans (hdrop 2)
  · exact (decodePoints_length h).trans (hdrop 2)
  · exact (decodePoints_length h).trans (hdrop 3)
  · split at h
    · split_ifs at h <;> exact decodePoints_length h
    · split_ifs at h <;> exact decodePoints_length h
    · exact decodePoints_length h

end Length

section Simple
variable {r : Reader} {w : Writer}

theorem plain_ascii {s : Text} (hs : ∀ c ∈ s, isPlain c = true) : Ascii s := by
  intro c hc
  have hplain := hs c hc
  simp only [isPlain, Bool.and_eq_true, decide_eq_true_eq] at hplain
  omega

theorem quote_plain_ascii {s : Text} (hs : ∀ c ∈ s, isPlain c = true) (ascii : Bool) : Ascii (quote ascii s) := by
  rw [quote_plain hs]
  exact (Ascii.cons (by norm_num) (plain_ascii hs)).append (Ascii.cons (by norm_num) (by simp [Ascii]))

/-- Simple values are written in ASCII, whatever the writer does with other characters. -/
theorem print_simple_ascii (hsorted : w.sorted = false) (hcomma : Ascii w.comma) (hcolon : Ascii w.colon) {d : ℕ}
    {v : Json} (hv : v.Simple d) {t : Text} (h : w.print d v = .ok t) : Ascii t := by
  induction d generalizing v t with
  | zero =>
    cases v with
    | null | bool | float | arr | obj => cases hv
    | int n => exact printInt_ascii h
    | str s =>
      obtain rfl := Except.ok.inj h
      exact quote_plain_ascii hv _
  | succ d ih =>
    cases v with
    | null | bool | float | arr => cases hv
    | int n => exact printInt_ascii h
    | str s =>
      obtain rfl := Except.ok.inj h
      exact quote_plain_ascii hv _
    | obj members =>
      simp only [Writer.print, hsorted, Bool.false_eq_true, if_false, bind_eq_ok, mapM_eq_ok, pure_eq_ok,
        Except.ok.injEq] at h
      obtain ⟨parts, hparts, rfl⟩ := h
      have hall : ∀ part ∈ parts, Ascii part := by
        refine forall₂_right hparts ?_
        rintro m hm part ⟨value, hvalue, rfl⟩
        exact ((quote_plain_ascii (hv m hm).1 _).append hcolon).append (ih (hv m hm).2 hvalue)
      exact (Ascii.cons (by norm_num) (hcomma.intercalate hall)).append (Ascii.cons (by norm_num) (by simp [Ascii]))

/-- A simple value is written as one byte for each character, and read back. -/
theorem loadsBytes_simple (hsorted : w.sorted = false) (hcomma : Separator 44 w.comma)
    (hcolon : Separator 58 w.colon) {v : Json} (hv : v.Simple w.depth) (hplain : v.Plain r w w.depth)
    (hdepth : w.depth ≤ r.depth) {raw : Bytes} (h : w.dumpsBytes v = .ok raw) :
    r.loadsBytes raw = .ok v ∧ ∃ t, w.dumps v = .ok t ∧ raw = t.map UInt8.ofNat := by
  obtain ⟨t, ht, h⟩ := bind_eq_ok.mp h
  have hascii : Ascii t := print_simple_ascii hsorted (separator_ascii (by norm_num) hcomma)
    (separator_ascii (by norm_num) hcolon) hv ht
  rw [encodeUtf8_ascii hascii] at h
  obtain rfl := Except.ok.inj h
  refine ⟨?_, t, ht, rfl⟩
  rw [Reader.loadsBytes, decodeDetected_ascii hascii]
  refine loads_dumps hcomma hcolon ht hplain hdepth fun hmark => ?_
  have hfirst := hascii _ (List.mem_of_mem_head? hmark)
  omega

end Simple

end Python
