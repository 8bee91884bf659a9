import AzdSanta.Python.JsonRoundTrip

/-! What a reader returns can be read again, once a writer has written it. -/
namespace Python
open Checks

section Scanning
variable {r : Reader} {P : Json → Prop}

theorem scanElements_forall {α : Type} {close : ℕ} {element : Scan α} {Q : α → Prop}
    (helement : ∀ input x rest, element input = .ok (x, rest) → Q x) {n : ℕ} {input : Text} {xs : List α}
    {rest : Text} (h : scanElements close element n input = .ok (xs, rest)) : ∀ x ∈ xs, Q x := by
  induction n generalizing input xs rest with
  | zero => cases h
  | succ n ih =>
    rw [scanElements] at h
    obtain ⟨⟨x, after⟩, hx, h⟩ := bind_eq_ok.mp h
    have hfirst := helement _ _ _ hx
    dsimp only at h
    split at h
    · split_ifs at h
      · obtain ⟨rfl, -⟩ := Prod.mk.inj (Except.ok.inj h)
        simpa using hfirst
      · obtain ⟨⟨ys, _⟩, hys, h⟩ := bind_eq_ok.mp h
        obtain ⟨rfl, -⟩ := Prod.mk.inj (Except.ok.inj h)
        exact List.forall_mem_cons.mpr ⟨hfirst, ih hys⟩
    · cases h

theorem scanContainer_forall {α : Type} {close : ℕ} {element : Scan α} {Q : α → Prop}
    (helement : ∀ input x rest, element input = .ok (x, rest) → Q x) {input : Text} {xs : List α}
    {rest : Text} (h : scanContainer close element input = .ok (xs, rest)) : ∀ x ∈ xs, Q x := by
  unfold scanContainer at h
  split at h
  · split_ifs at h
    · obtain ⟨rfl, -⟩ := Prod.mk.inj (Except.ok.inj h)
      simp
    · exact scanElements_forall helement h
  · cases h

theorem scanMember_value {value : Scan Json} {Q : Json → Prop}
    (hvalue : ∀ input x rest, value input = .ok (x, rest) → Q x) {input : Text} {m : Text × Json}
    {rest : Text} (h : scanMember value input = .ok (m, rest)) : Q m.2 := by
  unfold scanMember at h
  split at h
  · obtain ⟨⟨key, after⟩, -, h⟩ := bind_eq_ok.mp h
    dsimp only at h
    split at h
    · obtain ⟨⟨v, _⟩, hv, h⟩ := bind_eq_ok.mp h
      obtain ⟨rfl, -⟩ := Prod.mk.inj (Except.ok.inj h)
      exact hvalue _ _ _ hv
    · cases h
  · cases h

/-- `P` holds of everything but containers that `r` returns. -/
structure LeavesFrom (r : Reader) (P : Json → Prop) : Prop where
  null : P .null
  bool : ∀ b, P (.bool b)
  str : ∀ s, P (.str s)
  float : ∀ literal, P (.float (r.float literal))
  int : ∀ n t, printInt n = .ok t → P (.int n)
  constant : ∀ word v d, r.constant word = .ok v → v.Leaves P d
  pairs : ∀ pairs members, r.pairs pairs = .ok members → ∀ m ∈ members, ∃ pair ∈ pairs, pair.2 = m.2

theorem readDecimal_lt {digits : Text} (hdigits : ∀ c ∈ digits, isDigit c = true) :
    readDecimal digits < 10 ^ digits.length := by
  have hsmall : readDecimal digits < 10 ^ (digits.reverse.map (· - 48)).length := by
    apply Nat.ofDigits_lt_base_pow_length (by norm_num)
    intro d hd
    obtain ⟨c, hc, rfl⟩ := List.mem_map.mp hd
    have hdigit := hdigits c (List.mem_reverse.mp hc)
    simp only [isDigit, Bool.and_eq_true, decide_eq_true_eq] at hdigit
    omega
  rwa [List.length_map, List.length_reverse] at hsmall

theorem natAbs_signed (negative : Bool) (n : ℕ) : Int.natAbs (if negative then -(n : ℤ) else n) = n := by
  split_ifs <;> simp

theorem printInt_readDecimal {digits : Text} (hdigits : ∀ c ∈ digits, isDigit c = true)
    (hsize : digits.length ≤ maxDigits) (negative : Bool) :
    ∃ t, printInt (if negative then -readDecimal digits else readDecimal digits) = .ok t := by
  have hlength : (decimal (readDecimal digits)).length ≤ maxDigits := by
    obtain ⟨k, hk⟩ : ∃ k, maxDigits = k + 1 := ⟨4299, rfl⟩
    rw [hk] at hsize ⊢
    exact decimal_length_le ((readDecimal_lt hdigits).trans_le (Nat.pow_le_pow_right (by norm_num) hsize))
  simp only [printInt, natAbs_signed]
  rw [if_neg (not_lt.mpr hlength)]
  exact ⟨_, rfl⟩

theorem scanWhole_digits (input : Text) : ∀ c ∈ (scanWhole input).1, isDigit c = true := by
  unfold scanWhole
  split
  · simp only [List.mem_singleton]
    rintro _ rfl
    rfl
  · exact List.all_eq_true.mp List.all_takeWhile

theorem scanNumber_leaves (hr : LeavesFrom r P) {input rest : Text} {v : Json}
    (h : scanNumber r.float input = .ok (v, rest)) (d : ℕ) : v.Leaves P d := by
  have hunsigned (negative : Bool) (input : Text)
      (h : scanUnsigned r.float negative input = .ok (v, rest)) : v.Leaves P d := by
    simp only [scanUnsigned, throw_eq_error, check_eq_ok] at h
    obtain ⟨-, h⟩ := h
    split at h
    · obtain ⟨rfl, -⟩ := Prod.mk.inj (Except.ok.inj h)
      exact (Json.Leaves.scalar rfl).mpr (hr.float _)
    · obtain ⟨hsize, h⟩ := check_eq_ok.mp h
      obtain ⟨rfl, -⟩ := Prod.mk.inj (Except.ok.inj h)
      obtain ⟨t, ht⟩ := printInt_readDecimal (scanWhole_digits input) (not_lt.mp hsize) negative
      exact (Json.Leaves.scalar rfl).mpr (hr.int _ t ht)
  unfold scanNumber at h
  split at h
  · exact hunsigned true _ h
  · exact hunsigned false _ h

theorem scanWord_leaves (hr : LeavesFrom r P) {input rest : Text} {v : Json}
    (h : scanWord r input = .ok (v, rest)) (d : ℕ) : v.Leaves P d := by
  unfold scanWord at h
  split_ifs at h
  · obtain ⟨rfl, -⟩ := Prod.mk.inj (Except.ok.inj h)
    exact (Json.Leaves.scalar rfl).mpr hr.null
  · obtain ⟨rfl, -⟩ := Prod.mk.inj (Except.ok.inj h)
    exact (Json.Leaves.scalar rfl).mpr (hr.bool true)
  · obtain ⟨rfl, -⟩ := Prod.mk.inj (Except.ok.inj h)
    exact (Json.Leaves.scalar rfl).mpr (hr.bool false)
  · split at h
    · obtain ⟨value, hvalue, h⟩ := bind_eq_ok.mp h
      obtain ⟨rfl, -⟩ := Prod.mk.inj (Except.ok.inj h)
      exact hr.constant _ _ d hvalue
    · exact scanNumber_leaves hr h d

theorem scanOnce_leaves (hr : LeavesFrom r P) {d : ℕ} {input rest : Text} {v : Json}
    (h : scanOnce r d input = .ok (v, rest)) : v.Leaves P d := by
  induction d generalizing input v rest with
  | zero =>
    unfold scanOnce at h
    split at h
    · obtain ⟨⟨s, after⟩, -, h⟩ := bind_eq_ok.mp h
      obtain ⟨rfl, -⟩ := Prod.mk.inj (Except.ok.inj h)
      exact hr.str s
    · split_ifs at h
      exact scanWord_leaves hr h _
    · contradiction
    · cases h
  | succ d ih =>
    unfold scanOnce at h
    split at h
    · obtain ⟨⟨s, after⟩, -, h⟩ := bind_eq_ok.mp h
      obtain ⟨rfl, -⟩ := Prod.mk.inj (Except.ok.inj h)
      exact hr.str s
    · contradiction
    · next heq =>
      obtain rfl := Nat.succ.inj heq
      split_ifs at h
      · obtain ⟨⟨items, after⟩, hitems, h⟩ := bind_eq_ok.mp h
        obtain ⟨rfl, -⟩ := Prod.mk.inj (Except.ok.inj h)
        exact scanContainer_forall (fun _ _ _ => ih) hitems
      · obtain ⟨⟨pairs, after⟩, hpairs, h⟩ := bind_eq_ok.mp h
        obtain ⟨members, hmembers, h⟩ := bind_eq_ok.mp h
        obtain ⟨rfl, -⟩ := Prod.mk.inj (Except.ok.inj h)
        intro m hm
        obtain ⟨pair, hpair, heq⟩ := hr.pairs _ _ hmembers m hm
        rw [← heq]
        exact scanContainer_forall (fun _ _ _ hx => scanMember_value (fun _ _ _ => ih) hx) hpairs pair hpair
      · exact scanWord_leaves hr h _
    · cases h

theorem loads_leaves (hr : LeavesFrom r P) {input : Text} {v : Json} (h : r.loads input = .ok v) :
    v.Leaves P r.depth := by
  simp only [Reader.loads, throw_eq_error, check_eq_ok] at h
  obtain ⟨⟨value, rest⟩, hscan, h⟩ := bind_eq_ok.mp h.2
  dsimp only at h
  split_ifs at h
  obtain rfl := Except.ok.inj h
  exact scanOnce_leaves hr hscan

theorem loadsBytes_leaves (hr : LeavesFrom r P) {raw : Bytes} {v : Json} (h : r.loadsBytes raw = .ok v) :
    v.Leaves P r.depth := by
  unfold Reader.loadsBytes at h
  split at h
  · exact loads_leaves hr h
  · cases h

theorem mem_dictPairs {pairs : List (Text × Json)} {m : Text × Json} (hm : m ∈ dictPairs pairs) :
    ∃ pair ∈ pairs, pair.2 = m.2 := by
  have hall : ∀ m ∈ dictPairs pairs, ∃ pair ∈ pairs, pair.2 = m.2 := by
    unfold dictPairs
    apply List.foldlRecOn (motive := fun members : List (Text × Json) => ∀ m ∈ members, ∃ pair ∈ pairs, pair.2 = m.2)
    · simp
    · intro members hmembers pair hpair m hm
      dsimp only at hm
      split_ifs at hm
      · obtain ⟨old, hold, rfl⟩ := List.mem_map.mp hm
        split_ifs
        · exact ⟨pair, hpair, rfl⟩
        · exact hmembers old hold
      · rcases List.mem_append.mp hm with hm | hm
        · exact hmembers m hm
        · obtain rfl := List.mem_singleton.mp hm
          exact ⟨pair, hpair, rfl⟩
  exact hall m hm

/-- Pairs with different keys are the members. -/
theorem dictPairs_of_nodup {pairs : List (Text × Json)} (h : (pairs.map Prod.fst).Nodup) : dictPairs pairs = pairs := by
  have hfold (done : List (Text × Json)) (hdone : ((done ++ pairs).map Prod.fst).Nodup) :
      pairs.foldl (fun members pair =>
        if members.any fun m => m.1 = pair.1 then
          members.map fun m => if m.1 = pair.1 then pair else m
        else members ++ [pair]) done = done ++ pairs := by
    clear h
    induction pairs generalizing done with
    | nil => rw [List.foldl_nil, List.append_nil]
    | cons pair pairs ih =>
      have hnew : ¬ (done.any fun m => m.1 = pair.1) = true := by
        rw [List.map_append, List.map_cons, List.nodup_append] at hdone
        rw [List.any_eq_true]
        rintro ⟨m, hm, hkey⟩
        exact hdone.2.2 m.1 (List.mem_map_of_mem hm) pair.1 List.mem_cons_self (of_decide_eq_true hkey)
      rw [List.foldl_cons, if_neg hnew, ih, List.append_assoc, List.singleton_append]
      rwa [List.append_assoc, List.singleton_append]
  exact hfold [] h

end Scanning

section Rereading
variable {r : Reader} {w : Writer}

theorem escapeUnit_mod (n : ℕ) : escapeUnit (n % 0x10000) = escapeUnit n := by
  have h1 : n % 0x10000 / 4096 % 16 = n / 4096 % 16 := by omega
  have h2 : n % 0x10000 / 256 % 16 = n / 256 % 16 := by omega
  have h3 : n % 0x10000 / 16 % 16 = n / 16 % 16 := by omega
  have h4 : n % 0x10000 % 16 = n % 16 := by omega
  rw [escapeUnit, escapeUnit, h1, h2, h3, h4]

/-- Whatever is escaped can be scanned. -/
theorem scanUnits_escaped (c : ℕ) : ∃ us, ∀ rest, scanUnits (escapeChar true c ++ rest) = do
    let (units, tail) ← scanUnits rest
    return (us ++ units, tail) := by
  by_cases hc : c < 0x110000
  · exact ⟨charUnits true c, fun rest => scanUnits_escapeChar hc rest⟩
  · have hpair : escapeChar true c =
        escapeUnit (0xD800 + (c - 0x10000) / 1024) ++ escapeUnit (0xDC00 + (c - 0x10000) % 1024) := by
      simp only [escapeChar, not_true_eq_false, false_or]
      split_ifs <;> first | omega | rfl
    rw [hpair]
    generalize 0xD800 + (c - 0x10000) / 1024 = high, 0xDC00 + (c - 0x10000) % 1024 = low
    refine ⟨[(high % 0x10000, true), (low % 0x10000, true)], fun rest => ?_⟩
    rw [← escapeUnit_mod high, ← escapeUnit_mod low, List.append_assoc,
      scanUnits_escapeUnit (Nat.mod_lt _ (by norm_num)), scanUnits_escapeUnit (Nat.mod_lt _ (by norm_num))]
    cases scanUnits rest <;> rfl

theorem scanString_escaped (s : Text) :
    ∃ u, ∀ rest, scanString (s.flatMap (escapeChar true) ++ 34 :: rest) = .ok (u, rest) := by
  have hunits : ∃ units, ∀ rest,
      scanUnits (s.flatMap (escapeChar true) ++ 34 :: rest) = .ok (units, rest) := by
    induction s with
    | nil => exact ⟨[], fun rest => rfl⟩
    | cons c s ih =>
      obtain ⟨units, hunits⟩ := ih
      obtain ⟨us, hus⟩ := scanUnits_escaped c
      refine ⟨us ++ units, fun rest => ?_⟩
      rw [List.flatMap_cons, List.append_assoc, hus, hunits]
      rfl
  obtain ⟨units, hunits⟩ := hunits
  exact ⟨joinUnits units, fun rest => by rw [scanString, hunits]; rfl⟩

/-- A float that is a number can be read by `r` again. -/
def Legible (r : Reader) : Json → Prop
  | .float repr => nonFinite.lookup repr = none →
      Ascii repr ∧ (∃ c s, repr = c :: s ∧ (isDigit c = true ∨ c = 45)) ∧
        ∃ v, ∀ rest, Stops rest → scanWord r (repr ++ rest) = .ok (v, rest)
  | _ => True

theorem Legible.ascii {leaf : Json} (h : Legible r leaf) : AsciiLeaf leaf := by
  cases leaf with
  | float repr => exact fun hnumber => (h hnumber).1
  | null | bool | int | str | arr | obj => trivial

theorem scalar_reread (hascii : w.ascii = true) (hnan : w.nan = false) {v : Json}
    (hscalar : v.hashable = true) {d : ℕ} {t : Text} (h : w.print d v = .ok t)
    (hv : v.Leaves (Legible r) d) (d' : ℕ) : ∃ v', Reads (scanOnce r d') 93 v' t := by
  cases v with
  | null | bool | int => exact ⟨_, scalar_reads rfl h (by cases d <;> trivial) d'⟩
  | float repr =>
    simp only [Writer.print, printFloat, hnan] at h
    split at h
    · cases h
    · next hnumber =>
      obtain rfl := Except.ok.inj h
      obtain ⟨-, hstart, v', hscan⟩ := (Json.Leaves.scalar rfl).mp hv hnumber
      exact ⟨v', number_reads hstart hscan d'⟩
  | str s =>
    simp only [Writer.print, hascii, pure_eq_ok, Except.ok.injEq] at h
    subst h
    obtain ⟨u, hu⟩ := scanString_escaped s
    refine ⟨.str u, ⟨34, _, rfl, rfl, by norm_num⟩, fun rest _ => ?_⟩
    cases d' <;> simp [quote, scanOnce, hu]
  | arr | obj => cases hscalar

theorem exists_forall₂ {α β γ : Type} {R : α → β → Prop} {S : γ → β → Prop} {xs : List α} {ys : List β}
    (h : List.Forall₂ R xs ys) (hS : ∀ x ∈ xs, ∀ y, R x y → ∃ z, S z y) : ∃ zs, List.Forall₂ S zs ys := by
  induction h with
  | nil => exact ⟨[], .nil⟩
  | cons hxy _ ih =>
    obtain ⟨z, hz⟩ := hS _ List.mem_cons_self _ hxy
    obtain ⟨zs, hzs⟩ := ih fun x hx => hS x (List.mem_cons_of_mem _ hx)
    exact ⟨z :: zs, .cons hz hzs⟩

/-- What the writer writes can be read, with at least the room it was written with. -/
theorem print_reread (hascii : w.ascii = true) (hnan : w.nan = false) (hcomma : Separator 44 w.comma)
    (hcolon : Separator 58 w.colon) (hpairs : ∀ pairs, ∃ members, r.pairs pairs = .ok members) {d : ℕ}
    {v : Json} {t : Text} (h : w.print d v = .ok t) (hv : v.Leaves (Legible r) d) {d' : ℕ} (hd : d ≤ d') :
    ∃ v', Reads (scanOnce r d') 93 v' t := by
  induction d generalizing v t d' with
  | zero =>
    cases v with
    | null | bool | int | float | str => exact scalar_reread hascii hnan rfl h hv d'
    | arr | obj => simp [Writer.print] at h
  | succ d ih =>
    cases v with
    | null | bool | int | float | str => exact scalar_reread hascii hnan rfl h hv d'
    | arr items =>
      obtain ⟨e, rfl⟩ : ∃ e, d' = e + 1 := ⟨d' - 1, by omega⟩
      simp only [Writer.print, bind_eq_ok, mapM_eq_ok, pure_eq_ok, Except.ok.injEq] at h
      obtain ⟨parts, hparts, rfl⟩ := h
      obtain ⟨read, hread⟩ : ∃ read, List.Forall₂ (Reads (scanOnce r e) 93) read parts :=
        exists_forall₂ hparts fun item hitem part hprint => ih hprint (hv item hitem) (by omega)
      refine ⟨.arr read, ⟨91, _, rfl, rfl, by norm_num⟩, fun rest _ => ?_⟩
      have hscan := scanContainer_intercalate hcomma (Or.inl rfl) hread rest
      simp [scanOnce, hscan]
    | obj members =>
      obtain ⟨e, rfl⟩ : ∃ e, d' = e + 1 := ⟨d' - 1, by omega⟩
      simp only [Writer.print, bind_eq_ok, mapM_eq_ok, pure_eq_ok, Except.ok.injEq] at h
      obtain ⟨parts, hparts, rfl⟩ := h
      obtain ⟨read, hread⟩ : ∃ read, List.Forall₂ (Reads (scanMember (scanOnce r e)) 125) read parts := by
        refine exists_forall₂ hparts ?_
        rintro ⟨key, value⟩ hmember part ⟨printed, hprint, rfl⟩
        obtain ⟨value', hvalue⟩ := ih hprint (hv _ (mem_printed.mp hmember)) (show d ≤ e by omega)
        obtain ⟨key', hkey⟩ := scanString_escaped key
        rw [hascii]
        exact ⟨(key', value'), member_reads hcolon hkey hvalue⟩
      obtain ⟨kept, hkept⟩ := hpairs read
      refine ⟨.obj kept, ⟨123, _, rfl, rfl, by norm_num⟩, fun rest _ => ?_⟩
      have hscan := scanContainer_intercalate hcomma (Or.inr rfl) hread rest
      simp [scanOnce, hscan, hkept]

/-- `json.loads(json.dumps(v).encode())` returns, for what a reader can have returned. -/
theorem loadsBytes_returns (hascii : w.ascii = true) (hnan : w.nan = false) (hcomma : Separator 44 w.comma)
    (hcolon : Separator 58 w.colon) (hpairs : ∀ pairs, ∃ members, r.pairs pairs = .ok members) {v : Json}
    {raw : Bytes} (h : w.dumpsBytes v = .ok raw) (hv : v.Leaves (Legible r) w.depth)
    (hdepth : w.depth ≤ r.depth) : ∃ v', r.loadsBytes raw = .ok v' := by
  obtain ⟨t, ht, hraw⟩ := bind_eq_ok.mp h
  have htext : Ascii t := print_ascii hascii (separator_ascii (by norm_num) hcomma)
    (separator_ascii (by norm_num) hcolon) ht (hv.imp fun _ => Legible.ascii)
  rw [encodeUtf8_ascii htext] at hraw
  obtain rfl := Except.ok.inj hraw
  obtain ⟨v', hreads⟩ := print_reread hascii hnan hcomma hcolon hpairs ht hv hdepth
  refine ⟨v', ?_⟩
  rw [Reader.loadsBytes, decodeDetected_ascii htext]
  apply hreads.loads
  intro hhead
  have hmark := htext 0xFEFF (List.mem_of_mem_head? hhead)
  omega

end Rereading

section Refusal
variable {w : Writer}

/-- A number inside that is infinite or not a number. -/
inductive NonFinite : Json → Prop
  | float (repr : Text) (h : nonFinite.lookup repr ≠ none) : NonFinite (.float repr)
  | item (items : List Json) (item : Json) (hitem : item ∈ items) (h : NonFinite item) : NonFinite (.arr items)
  | member (members : List (Text × Json)) (m : Text × Json) (hmember : m ∈ members) (h : NonFinite m.2) :
      NonFinite (.obj members)

/-- What can be written but for the numbers that JSON does not have. -/
def Printable : Json → Prop
  | .int n => ∃ t, printInt n = .ok t
  | .arr _ | .obj _ => False
  | _ => True

theorem nonFinite_arr {items : List Json} : NonFinite (.arr items) ↔ ∃ item ∈ items, NonFinite item := by
  constructor
  · rintro ⟨⟩
    exact ⟨_, ‹_›, ‹_›⟩
  · rintro ⟨item, hitem, h⟩
    exact .item items item hitem h

theorem nonFinite_obj {members : List (Text × Json)} :
    NonFinite (.obj members) ↔ ∃ m ∈ members, NonFinite m.2 := by
  constructor
  · rintro ⟨⟩
    exact ⟨_, ‹_›, ‹_›⟩
  · rintro ⟨m, hm, h⟩
    exact .member members m hm h

theorem scalar_refuses (hnan : w.nan = false) {d : ℕ} {v : Json} (hscalar : v.hashable = true)
    (hv : Printable v) :
    (¬ NonFinite v ∧ ∃ t, w.print d v = .ok t) ∨ (NonFinite v ∧ w.print d v = .error .valueError) := by
  cases v with
  | null | bool | str =>
    refine Or.inl ⟨?_, _, by simp only [Writer.print]; rfl⟩
    rintro ⟨⟩
  | int n =>
    obtain ⟨t, ht⟩ := hv
    refine Or.inl ⟨?_, t, by simp only [Writer.print, ht]⟩
    rintro ⟨⟩
  | float repr =>
    simp only [Writer.print, printFloat, hnan]
    cases hlookup : nonFinite.lookup repr with
    | none =>
      refine Or.inl ⟨?_, _, rfl⟩
      rintro ⟨_, hsome⟩
      exact hsome hlookup
    | some word => exact Or.inr ⟨.float repr (by simp [hlookup]), rfl⟩
  | arr | obj => cases hscalar

/-- The only thing a reader returns and the writer refuses is a number that is not finite. -/
theorem print_refuses (hnan : w.nan = false) {d : ℕ} {v : Json} (hv : v.Leaves Printable d) :
    (¬ NonFinite v ∧ ∃ t, w.print d v = .ok t) ∨ (NonFinite v ∧ w.print d v = .error .valueError) := by
  induction d generalizing v with
  | zero =>
    cases v with
    | null | bool | int | float | str => exact scalar_refuses hnan rfl ((Json.Leaves.scalar rfl).mp hv)
    | arr | obj => exact hv.elim
  | succ d ih =>
    cases v with
    | null | bool | int | float | str => exact scalar_refuses hnan rfl ((Json.Leaves.scalar rfl).mp hv)
    | arr items =>
      have hitems := mapM_dichotomy fun item hitem => ih (hv item hitem)
      simp only [nonFinite_arr, Writer.print, not_exists, not_and]
      rcases hitems with ⟨hfinite, parts, hparts⟩ | ⟨hrefused, hparts⟩
      · exact Or.inl ⟨hfinite, _, by rw [hparts]; rfl⟩
      · exact Or.inr ⟨hrefused, by rw [hparts]; rfl⟩
    | obj members =>
      have hmember (m : Text × Json) (hm : m ∈ if w.sorted then sortMembers members else members) :
          (¬ NonFinite m.2 ∧ ∃ part, (do
            let value ← w.print d m.2
            return quote w.ascii m.1 ++ w.colon ++ value) = Except.ok part) ∨
          (NonFinite m.2 ∧ (do
            let value ← w.print d m.2
            return quote w.ascii m.1 ++ w.colon ++ value) = Except.error JsonError.valueError) := by
        rcases ih (hv m (mem_printed.mp hm)) with ⟨hfinite, t, ht⟩ | ⟨hrefused, ht⟩
        · exact Or.inl ⟨hfinite, _, by rw [ht]; rfl⟩
        · exact Or.inr ⟨hrefused, by rw [ht]; rfl⟩
      simp only [nonFinite_obj, Writer.print, not_exists, not_and]
      rcases mapM_dichotomy hmember with ⟨hfinite, parts, hparts⟩ | ⟨⟨m, hm, hrefused⟩, hparts⟩
      · exact Or.inl ⟨fun m hm => hfinite m (mem_printed.mpr hm), _, by rw [hparts]; rfl⟩
      · exact Or.inr ⟨⟨m, mem_printed.mp hm, hrefused⟩, by rw [hparts]; rfl⟩

/-- More room does not matter to a value that fits. -/
theorem Json.Leaves.mono {P : Json → Prop} (hP : ∀ leaf, P leaf → leaf.hashable = true) {d d' : ℕ}
    (hd : d ≤ d') {v : Json} (hv : v.Leaves P d) : v.Leaves P d' := by
  induction d generalizing v d' with
  | zero =>
    have hleaf : P v := by
      unfold Json.Leaves at hv
      exact hv
    exact (Json.Leaves.scalar (hP v hleaf)).mpr hleaf
  | succ d ih =>
    obtain ⟨e, rfl⟩ : ∃ e, d' = e + 1 := ⟨d' - 1, by omega⟩
    cases v with
    | null | bool | int | float | str => exact hv
    | arr items => exact fun item hitem => ih (by omega) (hv item hitem)
    | obj members => exact fun m hm => ih (by omega) (hv m hm)

/-- As bytes too: the text is ASCII, so that its encoding does not fail. -/
theorem dumpsBytes_refuses (hascii : w.ascii = true) (hnan : w.nan = false) (hcomma : Separator 44 w.comma)
    (hcolon : Separator 58 w.colon) {v : Json} (hv : v.Leaves Printable w.depth)
    (htext : v.Leaves AsciiLeaf w.depth) :
    (¬ NonFinite v ∧ ∃ raw, w.dumpsBytes v = .ok raw) ∨
      (NonFinite v ∧ w.dumpsBytes v = .error .valueError) := by
  rcases print_refuses hnan hv with ⟨hfinite, t, ht⟩ | ⟨hrefused, ht⟩
  · have ht' : Ascii t := print_ascii hascii (separator_ascii (by norm_num) hcomma)
      (separator_ascii (by norm_num) hcolon) ht htext
    refine Or.inl ⟨hfinite, t.map UInt8.ofNat, ?_⟩
    rw [Writer.dumpsBytes, Writer.dumps, ht, ok_bind, encodeUtf8_ascii ht']
    rfl
  · refine Or.inr ⟨hrefused, ?_⟩
    rw [Writer.dumpsBytes, Writer.dumps, ht]
    rfl

end Refusal

end Python
