import AzdSanta.Python.JsonOrder

/-! A text of a sorting writer is read as its value with the members in order, and written from it again. -/
namespace Python
open Checks

section Strings

/-- The first half of a pair of surrogates. -/
def isHigh (c : ℕ) : Bool := 0xD800 ≤ c && c < 0xDC00

/-- The second half. -/
def isLow (c : ℕ) : Bool := 0xDC00 ≤ c && c < 0xE000

/-- Code points of which no two are the halves of a pair. -/
structure Whole (s : Text) : Prop where
  range : ∀ c ∈ s, c < 0x110000
  apart : s.IsChain fun c d => ¬ (isHigh c = true ∧ isLow d = true)

theorem isHigh_iff {c : ℕ} : isHigh c = true ↔ 0xD800 ≤ c ∧ c < 0xDC00 := by simp [isHigh]

theorem isLow_iff {c : ℕ} : isLow c = true ↔ 0xDC00 ≤ c ∧ c < 0xE000 := by simp [isLow]

/-- Below the surrogates there are no pairs. -/
theorem whole_of_low {s : Text} (h : ∀ c ∈ s, c < 0xD800) : Whole s := by
  refine ⟨fun c hc => (h c hc).trans (by norm_num), List.Pairwise.isChain ?_⟩
  refine List.pairwise_of_forall_mem_list fun c hc d _ ⟨hhigh, _⟩ => ?_
  have hlow := h c hc
  rw [isHigh_iff] at hhigh
  omega

/-- A character that starts with a second half is one. -/
theorem charUnits_head {ascii : Bool} {c u : ℕ} {escaped : Bool} {units : List (ℕ × Bool)} (hc : c < 0x110000)
    (h : charUnits ascii c = (u, escaped) :: units) (hu : isLow u = true) : isLow c = true := by
  have hfirst : u = c ∨ u = 0xD800 + (c - 0x10000) / 1024 := by
    unfold charUnits at h
    split_ifs at h
    all_goals
      obtain ⟨hunit, -⟩ := List.cons.inj h
      obtain ⟨hunit, -⟩ := Prod.mk.inj hunit
    iterate 4 exact Or.inl hunit.symm
    exact Or.inr hunit.symm
  rcases hfirst with rfl | rfl
  · exact hu
  · rw [isLow_iff] at hu
    omega

theorem joinUnits_apart {c : ℕ} {escaped : Bool} {units : List (ℕ × Bool)}
    (h : ∀ u e units', units = (u, e) :: units' → ¬ (isHigh c = true ∧ isLow u = true)) :
    joinUnits ((c, escaped) :: units) = c :: joinUnits units := by
  cases units with
  | nil => rfl
  | cons unit units =>
    obtain ⟨d, escaped'⟩ := unit
    rw [joinUnits, if_neg]
    rintro ⟨-, -, hlow, hhigh, hlow', hhigh'⟩
    exact h d escaped' units rfl ⟨isHigh_iff.mpr ⟨hlow, hhigh⟩, isLow_iff.mpr ⟨hlow', hhigh'⟩⟩

theorem joinUnits_whole {ascii : Bool} {s : Text} (hs : Whole s) : joinUnits (s.flatMap (charUnits ascii)) = s := by
  obtain ⟨hrange, hapart⟩ := hs
  induction s with
  | nil => rfl
  | cons c s ih =>
    have hrest := ih (fun d hd => hrange d (List.mem_cons_of_mem _ hd)) hapart.tail
    rw [List.flatMap_cons]
    by_cases hscalar : isScalar c = true
    · rw [joinUnits_charUnits hscalar, hrest]
    · -- A half of a pair is one unit, and what follows does not complete it.
      have hsurrogate : 0xD800 ≤ c ∧ c < 0xE000 := by
        have hc := hrange c List.mem_cons_self
        simp only [isScalar, isSurrogate, Bool.and_eq_true, Bool.not_eq_true', decide_eq_true_eq] at hscalar
        by_contra hnot
        refine hscalar ⟨hc, ?_⟩
        rw [Bool.and_eq_false_iff, decide_eq_false_iff_not, decide_eq_false_iff_not]
        omega
      obtain ⟨escaped, hunit⟩ : ∃ escaped, charUnits ascii c = [(c, escaped)] := by
        unfold charUnits
        split_ifs
        all_goals first | exact ⟨_, rfl⟩ | omega
      rw [hunit, List.singleton_append, joinUnits_apart, hrest]
      rintro u e units hunits ⟨hhigh, hlow⟩
      cases s with
      | nil => cases hunits
      | cons d s =>
        rw [List.flatMap_cons] at hunits
        obtain ⟨first, more, hfirst⟩ : ∃ first more, charUnits ascii d = first :: more := by
          unfold charUnits
          split_ifs <;> exact ⟨_, _, rfl⟩
        rw [hfirst, List.cons_append] at hunits
        obtain ⟨rfl, -⟩ := List.cons.inj hunits
        have hd := charUnits_head (hrange d (by simp)) hfirst hlow
        rw [List.isChain_cons_cons] at hapart
        exact hapart.1 ⟨hhigh, hd⟩

theorem scanString_whole {ascii : Bool} {s : Text} (hs : Whole s) (rest : Text) :
    scanString (s.flatMap (escapeChar ascii) ++ 34 :: rest) = .ok (s, rest) := by
  simp only [scanString, scanUnits_quoted hs.range, ok_bind, joinUnits_whole hs]
  rfl

end Strings

section Values
variable {r : Reader} {w : Writer}

/-- A string or a key with the halves of a pair next to each other. -/
inductive Split : Json → Prop
  | str (s : Text) (h : ¬ Whole s) : Split (.str s)
  | item (items : List Json) (item : Json) (hitem : item ∈ items) (h : Split item) : Split (.arr items)
  | key (members : List (Text × Json)) (m : Text × Json) (hmember : m ∈ members) (h : ¬ Whole m.1) : Split (.obj members)
  | member (members : List (Text × Json)) (m : Text × Json) (hmember : m ∈ members) (h : Split m.2) :
      Split (.obj members)

/-- A finite float is read back as it is. -/
def Stable (r : Reader) : Json → Prop
  | .float repr => nonFinite.lookup repr = none →
      Ascii repr ∧ (∃ c s, repr = c :: s ∧ (isDigit c = true ∨ c = 45)) ∧
        ∀ rest, Stops rest → scanWord r (repr ++ rest) = .ok (.float repr, rest)
  | _ => True

theorem Stable.ascii {leaf : Json} (h : Stable r leaf) : AsciiLeaf leaf := by
  cases leaf with
  | float repr => exact fun hnumber => (h hnumber).1
  | null | bool | int | str | arr | obj => trivial

theorem forall₂_comp {α β γ : Type} {R : α → β → Prop} {S : β → γ → Prop} {xs : List α} {ys : List β} {zs : List γ}
    (h : List.Forall₂ R xs ys) (h' : List.Forall₂ S ys zs) : List.Forall₂ (fun x z => ∃ y, R x y ∧ S y z) xs zs := by
  induction h generalizing zs with
  | nil =>
    cases h'
    exact .nil
  | cons hxy _ ih =>
    cases h' with
    | cons hyz hrest => exact .cons ⟨_, hxy, hyz⟩ (ih hrest)

theorem Reordered.items (before : List Json) {xs ys : List Json} (h : List.Forall₂ Reordered xs ys) :
    Reordered (.arr (before ++ xs)) (.arr (before ++ ys)) := by
  induction h generalizing before with
  | nil => exact .refl _
  | @cons x y xs ys hxy _ ih =>
    refine .trans (.item before xs hxy) ?_
    have hrest := ih (before ++ [y])
    rwa [List.append_assoc, List.append_assoc] at hrest

theorem map_fst_eq {α β : Type} {R : β → β → Prop} {xs ys : List (α × β)}
    (h : List.Forall₂ (fun x y => y.1 = x.1 ∧ R x.2 y.2) xs ys) : ys.map Prod.fst = xs.map Prod.fst := by
  induction h with
  | nil => rfl
  | cons hxy _ ih => rw [List.map_cons, List.map_cons, hxy.1, ih]

theorem Reordered.entries (before : List (Text × Json)) {xs ys : List (Text × Json)}
    (h : List.Forall₂ (fun x y => y.1 = x.1 ∧ Reordered x.2 y.2) xs ys) :
    Reordered (.obj (before ++ xs)) (.obj (before ++ ys)) := by
  induction h generalizing before with
  | nil => exact .refl _
  | @cons x y xs ys hxy _ ih =>
    obtain ⟨key, v⟩ := x
    obtain ⟨key', v'⟩ := y
    obtain ⟨rfl, hv⟩ := hxy
    refine .trans (.member before xs key' hv) ?_
    have hrest := ih (before ++ [(key', v')])
    rwa [List.append_assoc, List.append_assoc] at hrest

theorem scalar_reordered (hascii : w.ascii = true) (hnan : w.nan = false) {v : Json} (hscalar : v.hashable = true)
    {d : ℕ} {t : Text} (h : w.print d v = .ok t) (hv : v.Leaves (Stable r) d) (hsplit : ¬ Split v) (d' : ℕ) :
    Reads (scanOnce r d') 93 v t := by
  cases v with
  | null | bool | int => exact scalar_reads rfl h (by cases d <;> trivial) d'
  | float repr =>
    simp only [Writer.print, printFloat, hnan] at h
    split at h
    · cases h
    · next hnumber =>
      obtain rfl := Except.ok.inj h
      obtain ⟨-, hstart, hscan⟩ := (Json.Leaves.scalar rfl).mp hv hnumber
      exact number_reads hstart hscan d'
  | str s =>
    have hs : Whole s := not_not.mp fun hnot => hsplit (.str s hnot)
    simp only [Writer.print, hascii, pure_eq_ok, Except.ok.injEq] at h
    subst h
    have hread := @scanString_whole true s hs
    refine ⟨⟨34, _, rfl, rfl, by norm_num⟩, fun rest _ => ?_⟩
    cases d' <;> simp [quote, scanOnce, hread]
  | arr | obj => cases hscalar

/-- A reader that keeps the pairs of an object in which no key is there twice. -/
def KeepsPairs (r : Reader) : Prop := ∀ pairs, (pairs.map Prod.fst).Nodup → r.pairs pairs = .ok pairs

theorem forall₂_exists {α β γ : Type} {R : α → β → Prop} {S : α → γ → β → Prop} {xs : List α} {ys : List β}
    (h : List.Forall₂ R xs ys) (hS : ∀ x ∈ xs, ∀ y, R x y → ∃ z, S x z y) :
    ∃ zs, List.Forall₂ (fun x z => ∃ y, S x z y) xs zs ∧ List.Forall₂ (fun z y => ∃ x ∈ xs, S x z y) zs ys := by
  induction h with
  | nil => exact ⟨[], .nil, .nil⟩
  | @cons x y xs ys hxy _ ih =>
    obtain ⟨z, hz⟩ := hS _ List.mem_cons_self _ hxy
    obtain ⟨zs, hfirst, hsecond⟩ := ih fun x hx => hS x (List.mem_cons_of_mem _ hx)
    refine ⟨z :: zs, .cons ⟨y, hz⟩ hfirst, .cons ⟨x, List.mem_cons_self, hz⟩ (hsecond.imp ?_)⟩
    rintro z y ⟨x, hx, hS⟩
    exact ⟨x, List.mem_cons_of_mem _ hx, hS⟩

/-- What a sorting writer writes is read with the members in order. -/
theorem print_reordered (hascii : w.ascii = true) (hsorted : w.sorted = true) (hnan : w.nan = false)
    (hcomma : Separator 44 w.comma) (hcolon : Separator 58 w.colon) (hpairs : KeepsPairs r) {d : ℕ} {v : Json}
    {t : Text} (h : w.print d v = .ok t) (hv : v.Leaves (Stable r) d) (hsplit : ¬ Split v) (hunique : ¬ Duplicate v)
    {d' : ℕ} (hd : d ≤ d') : ∃ v', Reordered v v' ∧ Reads (scanOnce r d') 93 v' t := by
  induction d generalizing v t d' with
  | zero =>
    cases v with
    | null | bool | int | float | str => exact ⟨_, .refl _, scalar_reordered hascii hnan rfl h hv hsplit d'⟩
    | arr | obj => simp [Writer.print] at h
  | succ d ih =>
    cases v with
    | null | bool | int | float | str => exact ⟨_, .refl _, scalar_reordered hascii hnan rfl h hv hsplit d'⟩
    | arr items =>
      obtain ⟨e, rfl⟩ : ∃ e, d' = e + 1 := ⟨d' - 1, by omega⟩
      simp only [Writer.print, bind_eq_ok, mapM_eq_ok, pure_eq_ok, Except.ok.injEq] at h
      obtain ⟨parts, hparts, rfl⟩ := h
      obtain ⟨read, hsame, hread⟩ := forall₂_exists hparts (S := fun item item' part =>
        Reordered item item' ∧ Reads (scanOnce r e) 93 item' part) fun item hitem part hprint =>
          ih hprint (hv item hitem) (fun hs => hsplit (.item items item hitem hs))
            (not_duplicate_arr.mp hunique item hitem) (by omega)
      refine ⟨.arr read, Reordered.items [] (hsame.imp fun _ _ h => h.elim fun _ h => h.1),
        ⟨91, _, rfl, rfl, by norm_num⟩, fun rest _ => ?_⟩
      have hscan := scanContainer_intercalate hcomma (Or.inl rfl) (hread.imp fun _ _ h => h.elim fun _ h => h.2.2) rest
      simp [scanOnce, hscan]
    | obj members =>
      obtain ⟨e, rfl⟩ : ∃ e, d' = e + 1 := ⟨d' - 1, by omega⟩
      simp only [Writer.print, hsorted, if_true, bind_eq_ok, mapM_eq_ok, pure_eq_ok, Except.ok.injEq] at h
      obtain ⟨parts, hparts, rfl⟩ := h
      obtain ⟨hnodup, hmembers⟩ := not_duplicate_obj.mp hunique
      have hperm : (sortMembers members).Perm members := List.perm_insertionSort _ members
      obtain ⟨read, hsame, hread⟩ := forall₂_exists hparts (S := fun m m' part => (m'.1 = m.1 ∧ Reordered m.2 m'.2) ∧
          Reads (scanMember (scanOnce r e)) 125 m' part) (by
        rintro ⟨key, value⟩ hmember part ⟨printed, hprint, rfl⟩
        have hm := hperm.mem_iff.mp hmember
        obtain ⟨value', hvalue, hreads⟩ := ih hprint (hv _ hm) (fun hs => hsplit (.member members _ hm hs))
          (hmembers _ hm) (show d ≤ e by omega)
        have hkey : Whole key := not_not.mp fun hnot => hsplit (.key members _ hm hnot)
        rw [hascii]
        exact ⟨(key, value'), ⟨rfl, hvalue⟩, member_reads hcolon (scanString_whole hkey) hreads⟩)
      have hentries : List.Forall₂ (fun x y => y.1 = x.1 ∧ Reordered x.2 y.2) (sortMembers members) read :=
        hsame.imp fun _ _ h => h.elim fun _ h => h.1
      have hkept : r.pairs read = .ok read := by
        apply hpairs
        rw [map_fst_eq hentries]
        exact (hperm.map Prod.fst).nodup_iff.mpr hnodup
      refine ⟨.obj read, .trans (.members hperm.symm) (Reordered.entries [] hentries), ⟨123, _, rfl, rfl, by norm_num⟩,
        fun rest _ => ?_⟩
      have hscan := scanContainer_intercalate hcomma (Or.inr rfl) (hread.imp fun _ _ h => h.elim fun _ h => h.2.2) rest
      simp [scanOnce, hscan, hkept]

/-- Bytes of a sorting writer are read as its value with the members in order. -/
theorem dumpsBytes_reordered (hascii : w.ascii = true) (hsorted : w.sorted = true) (hnan : w.nan = false)
    (hcomma : Separator 44 w.comma) (hcolon : Separator 58 w.colon) (hpairs : KeepsPairs r) {v : Json} {raw : Bytes}
    (h : w.dumpsBytes v = .ok raw) (hv : v.Leaves (Stable r) w.depth) (hsplit : ¬ Split v) (hunique : ¬ Duplicate v)
    (hdepth : w.depth ≤ r.depth) : ∃ v', Reordered v v' ∧ r.loadsBytes raw = .ok v' := by
  obtain ⟨t, ht, hraw⟩ := bind_eq_ok.mp h
  have htext := print_ascii hascii (separator_ascii (by norm_num) hcomma) (separator_ascii (by norm_num) hcolon) ht
    (hv.imp fun _ hleaf => hleaf.ascii)
  rw [encodeUtf8_ascii htext] at hraw
  obtain rfl := Except.ok.inj hraw
  obtain ⟨v', hsame, hread⟩ := print_reordered hascii hsorted hnan hcomma hcolon hpairs ht hv hsplit hunique hdepth
  refine ⟨v', hsame, ?_⟩
  rw [Reader.loadsBytes, decodeDetected_ascii htext]
  apply hread.loads
  intro hhead
  have hmark := htext 0xFEFF (List.mem_of_mem_head? hhead)
  omega

end Values

section Leaves
variable {P : Json → Prop}

theorem Json.Leaves.pred (hP : ∀ v, v.hashable = false → P v) {d : ℕ} {v : Json} (h : v.Leaves P (d + 1)) :
    v.Leaves P d := by
  induction d generalizing v with
  | zero =>
    cases v with
    | null | bool | int | float | str => exact h
    | arr | obj => exact hP _ rfl
  | succ d ih =>
    cases v with
    | null | bool | int | float | str => exact h
    | arr items => exact fun item hitem => ih (h item hitem)
    | obj members => exact fun m hm => ih (h m hm)

/-- What holds of all containers need not be asked of as many. -/
theorem Json.Leaves.shrink (hP : ∀ v, v.hashable = false → P v) {d d' : ℕ} (hd : d' ≤ d) {v : Json}
    (h : v.Leaves P d) : v.Leaves P d' := by
  induction hd with
  | refl => exact h
  | step _ ih => exact ih (h.pred hP)

theorem not_split_scalar {v : Json} (hscalar : v.hashable = true) (h : ∀ s, v = .str s → Whole s) : ¬ Split v := by
  rintro ⟨⟩
  · exact ‹¬ _› (h _ rfl)
  all_goals cases hscalar

theorem not_split_arr {items : List Json} (h : ∀ item ∈ items, ¬ Split item) : ¬ Split (.arr items) := by
  rintro ⟨⟩
  exact h _ ‹_› ‹_›

theorem not_split_obj {members : List (Text × Json)} (h : ∀ m ∈ members, Whole m.1 ∧ ¬ Split m.2) :
    ¬ Split (.obj members) := by
  rintro ⟨⟩
  · exact ‹¬ _› (h _ ‹_›).1
  · exact (h _ ‹_›).2 ‹_›

theorem stable_container (r : Reader) (v : Json) (h : v.hashable = false) : Stable r v := by
  cases v with
  | null | bool | int | float | str => cases h
  | arr | obj => trivial

end Leaves

section Dicts
variable {r : Reader}

/-- A `dict` has a key once. -/
theorem dictPairs_nodup (pairs : List (Text × Json)) : ((dictPairs pairs).map Prod.fst).Nodup := by
  unfold dictPairs
  apply List.foldlRecOn (motive := fun members : List (Text × Json) => (members.map Prod.fst).Nodup)
  · exact List.nodup_nil
  · rintro members hmembers ⟨key, value⟩ -
    dsimp only
    split_ifs with hany
    · have hkeys : (members.map fun m => if m.1 = key then (key, value) else m).map Prod.fst = members.map Prod.fst := by
        rw [List.map_map]
        refine List.map_congr_left fun m _ => ?_
        rw [Function.comp_apply]
        split_ifs with hkey
        · exact hkey.symm
        · rfl
      rwa [hkeys]
    · rw [List.map_append, List.nodup_append]
      refine ⟨hmembers, List.nodup_singleton _, fun key' hkey' other hother => ?_⟩
      obtain rfl := List.mem_singleton.mp hother
      rintro rfl
      obtain ⟨m, hm, hkey⟩ := List.mem_map.mp hkey'
      exact hany (List.any_eq_true.mpr ⟨m, hm, decide_eq_true hkey⟩)

theorem standard_keepsPairs (depth : ℕ) (float : Text → Text) : KeepsPairs (.standard depth float) := by
  intro pairs hpairs
  exact congrArg Except.ok (dictPairs_of_nodup hpairs)

/-- Hooks that return objects with different keys, and nothing else that has members. -/
structure Distinct (r : Reader) : Prop where
  pairs : ∀ pairs members, r.pairs pairs = .ok members →
    (members.map Prod.fst).Nodup ∧ ∀ m ∈ members, ∃ pair ∈ pairs, pair.2 = m.2
  constant : ∀ word v, r.constant word = .ok v → ¬ Duplicate v

theorem standard_distinct (depth : ℕ) (float : Text → Text) : Distinct (.standard depth float) where
  pairs pairs members h := by
    obtain rfl := Except.ok.inj h
    exact ⟨dictPairs_nodup pairs, fun m hm => mem_dictPairs hm⟩
  constant word v h := by
    obtain rfl := Except.ok.inj h
    exact not_duplicate_scalar rfl

theorem scanNumber_scalar {float : Text → Text} {input rest : Text} {v : Json}
    (h : scanNumber float input = .ok (v, rest)) : v.hashable = true := by
  have hleaves := scanNumber_leaves (syntactic_leaves 0 float) h 0
  rcases hv : v.hashable
  · exact absurd hleaves (not_nests_zero hv)
  · rfl

theorem scanWord_distinct (hr : Distinct r) {input rest : Text} {v : Json} (h : scanWord r input = .ok (v, rest)) :
    ¬ Duplicate v := by
  unfold scanWord at h
  split_ifs at h
  iterate 3
    obtain ⟨rfl, -⟩ := Prod.mk.inj (Except.ok.inj h)
    exact not_duplicate_scalar rfl
  split at h
  · obtain ⟨value, hvalue, h⟩ := bind_eq_ok.mp h
    obtain ⟨rfl, -⟩ := Prod.mk.inj (Except.ok.inj h)
    exact hr.constant _ _ hvalue
  · exact not_duplicate_scalar (scanNumber_scalar h)

theorem scanOnce_distinct (hr : Distinct r) {d : ℕ} {input rest : Text} {v : Json}
    (h : scanOnce r d input = .ok (v, rest)) : ¬ Duplicate v := by
  induction d using Nat.strong_induction_on generalizing input v rest with
  | _ d ih =>
    rcases scanOnce_eq_ok.mp h with ⟨tail, s, rfl, hs, rfl⟩ | ⟨k, tail, items, rfl, rfl, hitems, rfl⟩ |
      ⟨k, tail, pairs, members, rfl, rfl, hpairs, hmembers, rfl⟩ | ⟨c, tail, rfl, hquote, hlist, hobject, hword⟩
    · exact not_duplicate_scalar rfl
    · exact not_duplicate_arr.mpr (scanContainer_forall (fun _ _ _ hx => ih k (Nat.lt_succ_self k) hx) hitems)
    · obtain ⟨hnodup, hfrom⟩ := hr.pairs _ _ hmembers
      have hvalues : ∀ pair ∈ pairs, ¬ Duplicate pair.2 :=
        scanContainer_forall (fun _ _ _ hx => scanMember_value (fun _ _ _ hy => ih k (Nat.lt_succ_self k) hy) hx) hpairs
      refine not_duplicate_obj.mpr ⟨hnodup, fun m hm => ?_⟩
      obtain ⟨pair, hpair, heq⟩ := hfrom m hm
      exact heq ▸ hvalues pair hpair
    · exact scanWord_distinct hr hword

theorem loads_distinct (hr : Distinct r) {input : Text} {v : Json} (h : r.loads input = .ok v) : ¬ Duplicate v := by
  simp only [Reader.loads, throw_eq_error, check_eq_ok] at h
  obtain ⟨⟨value, rest⟩, hscan, h⟩ := bind_eq_ok.mp h.2
  dsimp only at h
  split_ifs at h
  obtain rfl := Except.ok.inj h
  exact scanOnce_distinct hr hscan

theorem loadsBytes_distinct (hr : Distinct r) {raw : Bytes} {v : Json} (h : r.loadsBytes raw = .ok v) :
    ¬ Duplicate v := by
  unfold Reader.loadsBytes at h
  split at h
  · exact loads_distinct hr h
  · cases h

end Dicts

section Inversion
variable {v' : Json}

theorem Reordered.scalar {v : Json} (h : Reordered v v') (hv : v.hashable = true) : v' = v := by
  induction h with
  | refl => rfl
  | trans _ _ ih ih' =>
    obtain rfl := ih hv
    exact ih' hv
  | members | item | member => cases hv

theorem reordered_refl_list (xs : List Json) : List.Forall₂ Reordered xs xs :=
  List.forall₂_same.mpr fun x _ => .refl x

/-- The items of a list stay in their order. -/
theorem Reordered.arr {xs : List Json} (h : Reordered (.arr xs) v') :
    ∃ ys, v' = .arr ys ∧ List.Forall₂ Reordered xs ys := by
  generalize hv : Json.arr xs = v at h
  induction h generalizing xs with
  | refl => exact ⟨xs, hv.symm, reordered_refl_list xs⟩
  | trans _ _ ih ih' =>
    obtain ⟨ys, rfl, hfirst⟩ := ih hv
    obtain ⟨zs, rfl, hsecond⟩ := ih' rfl
    exact ⟨zs, rfl, (forall₂_comp hfirst hsecond).imp fun _ _ ⟨_, h, h'⟩ => h.trans h'⟩
  | members | member => cases hv
  | item before after h _ =>
    obtain rfl := Json.arr.inj hv
    exact ⟨_, rfl, List.rel_append (reordered_refl_list before) (.cons h (reordered_refl_list after))⟩

/-- The members of an object stay under their names. -/
theorem Reordered.obj {ms : List (Text × Json)} (h : Reordered (.obj ms) v') (hunique : ¬ Duplicate (.obj ms)) :
    ∃ ms', v' = .obj ms' ∧ (ms'.map Prod.fst).Perm (ms.map Prod.fst) ∧
      ∀ key v, ms.lookup key = some v → ∃ w, ms'.lookup key = some w ∧ Reordered v w := by
  generalize hv : Json.obj ms = v at h hunique
  induction h generalizing ms with
  | refl => exact ⟨ms, hv.symm, .refl _, fun _ v h => ⟨v, h, .refl v⟩⟩
  | trans h _ ih ih' =>
    obtain ⟨ms', rfl, hperm, hfirst⟩ := ih hv hunique
    obtain ⟨ms'', rfl, hperm', hsecond⟩ := ih' rfl (h.unique hunique)
    refine ⟨ms'', rfl, hperm'.trans hperm, fun key v hv => ?_⟩
    obtain ⟨w, hw, hvw⟩ := hfirst key v hv
    obtain ⟨w', hw', hww'⟩ := hsecond key w hw
    exact ⟨w', hw', hvw.trans hww'⟩
  | @members ms₁ ms' hperm =>
    obtain rfl := Json.obj.inj hv
    refine ⟨ms', rfl, (hperm.map Prod.fst).symm, fun key v hv => ⟨v, ?_, .refl v⟩⟩
    have hnodup := (hperm.map Prod.fst).nodup_iff.mp (not_duplicate_obj.mp hunique).1
    obtain ⟨before, after, rfl, -⟩ := List.lookup_eq_some_iff.mp hv
    have hmem : (key, v) ∈ ms' := hperm.mem_iff.mp (by simp)
    exact Unique.lookup_of_mem hnodup hmem
  | item => cases hv
  | @member u u' before after key h _ =>
    obtain rfl := Json.obj.inj hv
    refine ⟨_, rfl, by simp, fun name v hv => ?_⟩
    rw [List.lookup_append, List.lookup_cons] at hv ⊢
    cases hbefore : before.lookup name with
    | some value =>
      rw [hbefore, Option.some_or] at hv
      exact ⟨v, by rw [Option.some_or, hv], .refl v⟩
    | none =>
      rw [hbefore, Option.none_or] at hv
      rw [Option.none_or]
      by_cases hname : name == key
      · rw [hname] at hv ⊢
        obtain rfl := Option.some.inj hv
        exact ⟨u', rfl, h⟩
      · rw [Bool.not_eq_true] at hname
        rw [hname] at hv ⊢
        exact ⟨v, hv, .refl v⟩

end Inversion
end Python
