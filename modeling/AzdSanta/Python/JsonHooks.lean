import AzdSanta.Python.JsonReread

/-! A reader with hooks that refuse, next to one that keeps every pair it reads. -/
namespace Python
open Checks

/-- The reader of the syntax: every pair is kept, and the words that are no JSON are floats. -/
def Reader.syntactic (depth : ℕ) (float : Text → Text) : Reader :=
  { Reader.standard depth float with pairs := pure }

/-- The hooks refuse the words that are no JSON and a second pair of one key. -/
structure Strict (r : Reader) : Prop where
  constant : ∀ word, r.constant word = .error .valueError
  pairs : r.pairs = uniquePairs

/-- Two members of one name in one object. -/
inductive Duplicate : Json → Prop
  | here (members : List (Text × Json)) (h : ¬ (members.map Prod.fst).Nodup) : Duplicate (.obj members)
  | item (items : List Json) (item : Json) (hitem : item ∈ items) (h : Duplicate item) : Duplicate (.arr items)
  | member (members : List (Text × Json)) (m : Text × Json) (hmember : m ∈ members) (h : Duplicate m.2) :
      Duplicate (.obj members)

/-- At most `depth` containers inside each other. -/
def Json.Nests (depth : ℕ) (v : Json) : Prop := v.Leaves (fun leaf => leaf.hashable = true) depth

theorem nests_arr {d : ℕ} {items : List Json} :
    (Json.arr items).Nests (d + 1) ↔ ∀ item ∈ items, item.Nests d := Iff.rfl

theorem nests_obj {d : ℕ} {members : List (Text × Json)} :
    (Json.obj members).Nests (d + 1) ↔ ∀ m ∈ members, m.2.Nests d := Iff.rfl

theorem nests_scalar {d : ℕ} {v : Json} (hscalar : v.hashable = true) : v.Nests d :=
  (Json.Leaves.scalar hscalar).mpr hscalar

theorem not_nests_zero {v : Json} (h : v.hashable = false) : ¬ v.Nests 0 := by
  cases v with
  | null | bool | int | float | str => cases h
  | arr | obj => exact Bool.false_ne_true

theorem not_duplicate_arr {items : List Json} :
    ¬ Duplicate (.arr items) ↔ ∀ item ∈ items, ¬ Duplicate item := by
  constructor
  · exact fun h item hitem hdup => h (.item items item hitem hdup)
  · rintro h ⟨⟩
    exact h _ ‹_› ‹_›

theorem not_duplicate_obj {members : List (Text × Json)} :
    ¬ Duplicate (.obj members) ↔ (members.map Prod.fst).Nodup ∧ ∀ m ∈ members, ¬ Duplicate m.2 := by
  constructor
  · intro h
    refine ⟨?_, fun m hm hdup => h (.member members m hm hdup)⟩
    by_contra hnot
    exact h (.here members hnot)
  · rintro ⟨hnodup, h⟩ ⟨⟩
    · exact ‹¬ _› hnodup
    · exact h _ ‹_› ‹_›

theorem uniquePairs_eq_ok {pairs members : List (Text × Json)} :
    uniquePairs pairs = .ok members ↔ (pairs.map Prod.fst).Nodup ∧ members = pairs := by
  unfold uniquePairs
  split_ifs with h
  · simp [h, eq_comm]
  · simp [h]

section Transfer
variable {α : Type} {element element' : Scan α} {Q : α → Prop} {close : ℕ}

/-- Another element reader that agrees on what is read. -/
theorem scanElements_transfer
    (helement : ∀ input x rest, Q x → element input = .ok (x, rest) → element' input = .ok (x, rest))
    {n : ℕ} {input rest : Text} {xs : List α} (hxs : ∀ x ∈ xs, Q x)
    (h : scanElements close element n input = .ok (xs, rest)) :
    scanElements close element' n input = .ok (xs, rest) := by
  induction n generalizing input xs rest with
  | zero => cases h
  | succ n ih =>
    rw [scanElements] at h ⊢
    obtain ⟨⟨x, after⟩, hx, h⟩ := bind_eq_ok.mp h
    dsimp only at h
    split at h
    · next c tail hskip =>
      split_ifs at h with hclose hcomma
      · obtain ⟨rfl, rfl⟩ := Prod.mk.inj (Except.ok.inj h)
        rw [helement _ _ _ (hxs x (List.mem_singleton_self x)) hx, ok_bind]
        simp [hskip, hclose]
      · obtain ⟨⟨ys, after'⟩, hys, h⟩ := bind_eq_ok.mp h
        obtain ⟨rfl, rfl⟩ := Prod.mk.inj (Except.ok.inj h)
        have hrest := ih (fun y hy => hxs y (List.mem_cons_of_mem x hy)) hys
        rw [helement _ _ _ (hxs x List.mem_cons_self) hx, ok_bind]
        subst hcomma
        simp [hskip, hclose, hrest]
    · cases h

theorem scanContainer_transfer
    (helement : ∀ input x rest, Q x → element input = .ok (x, rest) → element' input = .ok (x, rest))
    {input rest : Text} {xs : List α} (hxs : ∀ x ∈ xs, Q x)
    (h : scanContainer close element input = .ok (xs, rest)) :
    scanContainer close element' input = .ok (xs, rest) := by
  unfold scanContainer at h ⊢
  split at h
  · split_ifs at h ⊢ with hclose
    · exact h
    · exact scanElements_transfer helement hxs h
  · cases h

theorem scanMember_transfer {value value' : Scan Json} {Q : Json → Prop}
    (hvalue : ∀ input v rest, Q v → value input = .ok (v, rest) → value' input = .ok (v, rest))
    {input rest : Text} {m : Text × Json} (hm : Q m.2) (h : scanMember value input = .ok (m, rest)) :
    scanMember value' input = .ok (m, rest) := by
  unfold scanMember at h ⊢
  split at h
  · obtain ⟨⟨key, after⟩, hkey, h⟩ := bind_eq_ok.mp h
    dsimp only at h
    split at h
    · next tail hskip =>
      obtain ⟨⟨v, after'⟩, hv, h⟩ := bind_eq_ok.mp h
      obtain ⟨rfl, rfl⟩ := Prod.mk.inj (Except.ok.inj h)
      have hsame := hvalue _ _ _ hm hv
      rw [hkey, ok_bind]
      simp [hskip, hsame]
    · cases h
  · cases h

end Transfer

/-- The four ways a value is read. -/
theorem scanOnce_eq_ok {r : Reader} {d : ℕ} {input rest : Text} {v : Json} :
    scanOnce r d input = .ok (v, rest) ↔
      (∃ tail s, input = 34 :: tail ∧ scanString tail = .ok (s, rest) ∧ v = .str s) ∨
      (∃ k tail items, d = k + 1 ∧ input = 91 :: tail ∧
        scanContainer 93 (scanOnce r k) tail = .ok (items, rest) ∧ v = .arr items) ∨
      (∃ k tail pairs members, d = k + 1 ∧ input = 123 :: tail ∧
        scanContainer 125 (scanMember (scanOnce r k)) tail = .ok (pairs, rest) ∧
        r.pairs pairs = .ok members ∧ v = .obj members) ∨
      (∃ c tail, input = c :: tail ∧ c ≠ 34 ∧ c ≠ 91 ∧ c ≠ 123 ∧ scanWord r input = .ok (v, rest)) := by
  constructor
  · intro h
    unfold scanOnce at h
    split at h
    · obtain ⟨⟨s, after⟩, hs, h⟩ := bind_eq_ok.mp h
      obtain ⟨rfl, rfl⟩ := Prod.mk.inj (Except.ok.inj h)
      exact Or.inl ⟨_, s, rfl, hs, rfl⟩
    · next hquote =>
      split_ifs at h with hopen
      push Not at hopen
      exact Or.inr (Or.inr (Or.inr ⟨_, _, rfl, hquote, hopen.1, hopen.2, h⟩))
    · next hquote =>
      split_ifs at h with hlist hobject
      · subst hlist
        obtain ⟨⟨items, after⟩, hitems, h⟩ := bind_eq_ok.mp h
        obtain ⟨rfl, rfl⟩ := Prod.mk.inj (Except.ok.inj h)
        exact Or.inr (Or.inl ⟨_, _, items, rfl, rfl, hitems, rfl⟩)
      · subst hobject
        obtain ⟨⟨pairs, after⟩, hpairs, h⟩ := bind_eq_ok.mp h
        obtain ⟨members, hmembers, h⟩ := bind_eq_ok.mp h
        obtain ⟨rfl, rfl⟩ := Prod.mk.inj (Except.ok.inj h)
        exact Or.inr (Or.inr (Or.inl ⟨_, _, pairs, members, rfl, rfl, hpairs, hmembers, rfl⟩))
      · exact Or.inr (Or.inr (Or.inr ⟨_, _, rfl, hquote, hlist, hobject, h⟩))
    · cases h
  · rintro (⟨tail, s, rfl, hs, rfl⟩ | ⟨k, tail, items, rfl, rfl, hitems, rfl⟩ |
      ⟨k, tail, pairs, members, rfl, rfl, hpairs, hmembers, rfl⟩ | ⟨c, tail, rfl, hquote, hlist, hobject, h⟩)
    · simp [scanOnce, hs]
    · simp [scanOnce, hitems]
    · simp [scanOnce, hpairs, hmembers]
    · rcases d with _ | k
      · rw [scanOnce, if_neg (by simp [hlist, hobject])]
        · exact h
        · exact hquote
      · rw [scanOnce, if_neg hlist, if_neg hobject]
        · exact h
        · exact hquote

section Hooks
variable {r : Reader}

/-- Outside the constants the readers agree. -/
theorem scanWord_strict (hr : Strict r) (room : ℕ) {input rest : Text} {v : Json} (hv : ¬ NonFinite v) :
    scanWord r input = .ok (v, rest) ↔ scanWord (.syntactic room r.float) input = .ok (v, rest) := by
  unfold scanWord
  split_ifs
  · rfl
  · rfl
  · rfl
  · split
    · next word hword =>
      rw [hr.constant, error_bind]
      constructor
      · exact nofun
      · intro h
        obtain ⟨rfl, -⟩ := Prod.mk.inj (Except.ok.inj h)
        refine absurd (NonFinite.float _ ?_) hv
        split_ifs <;> decide
    · rfl

theorem syntactic_leaves (room : ℕ) (float : Text → Text) :
    LeavesFrom (.syntactic room float) fun leaf => leaf.hashable = true where
  null := rfl
  bool _ := rfl
  str _ := rfl
  float _ := rfl
  int _ _ _ := rfl
  constant word v d hv := by
    obtain rfl := Except.ok.inj hv
    exact (Json.Leaves.scalar rfl).mpr rfl
  pairs pairs members hpairs m hm := by
    obtain rfl := Except.ok.inj hpairs
    exact ⟨m, hm, rfl⟩

theorem scanWord_scalar {room : ℕ} {float : Text → Text} {input rest : Text} {v : Json}
    (h : scanWord (.syntactic room float) input = .ok (v, rest)) : v.hashable = true := by
  have hleaves := scanWord_leaves (syntactic_leaves room float) h 0
  rcases hv : v.hashable
  · exact absurd hleaves (not_nests_zero hv)
  · rfl

theorem not_duplicate_scalar {v : Json} (h : v.hashable = true) : ¬ Duplicate v := by
  rintro ⟨⟩ <;> cases h

/-- What strict hooks let through is what the text says, with no member twice. -/
theorem scanOnce_of_strict (hr : Strict r) (room : ℕ) {d : ℕ} {input rest : Text} {v : Json}
    (h : scanOnce r d input = .ok (v, rest)) (hv : ¬ NonFinite v) :
    scanOnce (.syntactic room r.float) d input = .ok (v, rest) ∧ ¬ Duplicate v := by
  induction d using Nat.strong_induction_on generalizing input v rest with
  | _ d ih =>
    rcases scanOnce_eq_ok.mp h with ⟨tail, s, rfl, hs, rfl⟩ | ⟨k, tail, items, rfl, rfl, hitems, rfl⟩ |
      ⟨k, tail, pairs, members, rfl, rfl, hpairs, hmembers, rfl⟩ | ⟨c, tail, rfl, hquote, hlist, hobject, hword⟩
    · exact ⟨scanOnce_eq_ok.mpr (Or.inl ⟨tail, s, rfl, hs, rfl⟩), not_duplicate_scalar rfl⟩
    · have hfinite : ∀ item ∈ items, ¬ NonFinite item := fun item hitem h =>
        hv (nonFinite_arr.mpr ⟨item, hitem, h⟩)
      have hsame := scanContainer_transfer (fun _ _ _ hx h => (ih k (Nat.lt_succ_self k) h hx).1) hfinite hitems
      have hunique : ∀ item ∈ items, ¬ NonFinite item → ¬ Duplicate item :=
        scanContainer_forall (fun _ _ _ h hx => (ih k (Nat.lt_succ_self k) h hx).2) hitems
      refine ⟨scanOnce_eq_ok.mpr (Or.inr (Or.inl ⟨k, tail, items, rfl, rfl, hsame, rfl⟩)), ?_⟩
      exact not_duplicate_arr.mpr fun item hitem => hunique item hitem (hfinite item hitem)
    · rw [hr.pairs, uniquePairs_eq_ok] at hmembers
      obtain ⟨hnodup, rfl⟩ := hmembers
      have hfinite : ∀ m ∈ members, ¬ NonFinite m.2 := fun m hm h => hv (nonFinite_obj.mpr ⟨m, hm, h⟩)
      have hsame := scanContainer_transfer (Q := fun m => ¬ NonFinite m.2) (fun _ _ _ hx h =>
        scanMember_transfer (fun _ _ _ hx h => (ih k (Nat.lt_succ_self k) h hx).1) hx h) hfinite hpairs
      have hunique : ∀ m ∈ members, ¬ NonFinite m.2 → ¬ Duplicate m.2 :=
        scanContainer_forall (fun _ _ _ h => scanMember_value (fun _ _ _ h hx =>
          (ih k (Nat.lt_succ_self k) h hx).2) h) hpairs
      refine ⟨scanOnce_eq_ok.mpr (Or.inr (Or.inr (Or.inl ⟨k, tail, members, members, rfl, rfl, hsame, rfl, rfl⟩))),
        not_duplicate_obj.mpr ⟨hnodup, fun m hm => hunique m hm (hfinite m hm)⟩⟩
    · have hsame := (scanWord_strict hr room hv).mp hword
      exact ⟨scanOnce_eq_ok.mpr (Or.inr (Or.inr (Or.inr ⟨c, tail, rfl, hquote, hlist, hobject, hsame⟩))),
        not_duplicate_scalar (scanWord_scalar hsame)⟩

/-- A text without a member twice that fits gets through strict hooks. -/
theorem scanOnce_strict (hr : Strict r) {room d : ℕ} {input rest : Text} {v : Json}
    (h : scanOnce (.syntactic room r.float) d input = .ok (v, rest)) (hv : ¬ NonFinite v)
    (hunique : ¬ Duplicate v) {d' : ℕ} (hnests : v.Nests d') : scanOnce r d' input = .ok (v, rest) := by
  induction d using Nat.strong_induction_on generalizing input v rest d' with
  | _ d ih =>
    rcases scanOnce_eq_ok.mp h with ⟨tail, s, rfl, hs, rfl⟩ | ⟨k, tail, items, rfl, rfl, hitems, rfl⟩ |
      ⟨k, tail, pairs, members, rfl, rfl, hpairs, hmembers, rfl⟩ | ⟨c, tail, rfl, hquote, hlist, hobject, hword⟩
    · exact scanOnce_eq_ok.mpr (Or.inl ⟨tail, s, rfl, hs, rfl⟩)
    · rcases d' with _ | k'
      · exact absurd hnests (not_nests_zero rfl)
      have hitem : ∀ item ∈ items, ¬ NonFinite item ∧ ¬ Duplicate item ∧ item.Nests k' := fun item hitem =>
        ⟨fun h => hv (nonFinite_arr.mpr ⟨item, hitem, h⟩), not_duplicate_arr.mp hunique item hitem,
          nests_arr.mp hnests item hitem⟩
      have hsame := scanContainer_transfer
        (fun _ _ _ hx h => ih k (Nat.lt_succ_self k) h hx.1 hx.2.1 hx.2.2) hitem hitems
      exact scanOnce_eq_ok.mpr (Or.inr (Or.inl ⟨k', tail, items, rfl, rfl, hsame, rfl⟩))
    · rcases d' with _ | k'
      · exact absurd hnests (not_nests_zero rfl)
      obtain rfl := Except.ok.inj hmembers
      obtain ⟨hnodup, hmember⟩ := not_duplicate_obj.mp hunique
      have hpair : ∀ m ∈ pairs, ¬ NonFinite m.2 ∧ ¬ Duplicate m.2 ∧ m.2.Nests k' := fun m hm =>
        ⟨fun h => hv (nonFinite_obj.mpr ⟨m, hm, h⟩), hmember m hm, nests_obj.mp hnests m hm⟩
      have hvalue (input : Text) (v : Json) (rest : Text)
          (hx : ¬ NonFinite v ∧ ¬ Duplicate v ∧ v.Nests k')
          (h : scanOnce (.syntactic room r.float) k input = .ok (v, rest)) : scanOnce r k' input = .ok (v, rest) :=
        ih k (Nat.lt_succ_self k) h hx.1 hx.2.1 hx.2.2
      have hsame := scanContainer_transfer (Q := fun m => ¬ NonFinite m.2 ∧ ¬ Duplicate m.2 ∧ m.2.Nests k')
        (fun _ _ _ hx h => scanMember_transfer hvalue hx h) hpair hpairs
      have hkept : r.pairs pairs = .ok pairs := by
        rw [hr.pairs]
        exact uniquePairs_eq_ok.mpr ⟨hnodup, rfl⟩
      exact scanOnce_eq_ok.mpr
        (Or.inr (Or.inr (Or.inl ⟨k', tail, pairs, pairs, rfl, rfl, hsame, hkept, rfl⟩)))
    · have hsame := (scanWord_strict hr room hv).mpr hword
      exact scanOnce_eq_ok.mpr (Or.inr (Or.inr (Or.inr ⟨c, tail, rfl, hquote, hlist, hobject, hsame⟩)))

theorem strict_loads (hr : Strict r) {input : Text} {v : Json} (hv : ¬ NonFinite v) :
    r.loads input = .ok v ↔
      (∃ room, (Reader.syntactic room r.float).loads input = .ok v) ∧ ¬ Duplicate v ∧ v.Nests r.depth := by
  unfold Reader.loads
  split_ifs with hmark
  · exact ⟨nofun, fun ⟨⟨_, h⟩, _⟩ => nomatch h⟩
  constructor
  · intro h
    obtain ⟨⟨value, rest⟩, hscan, h⟩ := bind_eq_ok.mp h
    dsimp only at h
    split_ifs at h with hrest
    obtain rfl := Except.ok.inj h
    obtain ⟨hsame, hunique⟩ := scanOnce_of_strict hr r.depth hscan hv
    refine ⟨⟨r.depth, ?_⟩, hunique, scanOnce_leaves (syntactic_leaves r.depth r.float) hsame⟩
    change (scanOnce (.syntactic r.depth r.float) r.depth (skipBlanks input) >>= _) = _
    rw [hsame, ok_bind]
    exact if_pos hrest
  · rintro ⟨⟨room, h⟩, hunique, hnests⟩
    obtain ⟨⟨value, rest⟩, hscan, h⟩ := bind_eq_ok.mp h
    dsimp only at h
    split_ifs at h with hrest
    obtain rfl := Except.ok.inj h
    rw [scanOnce_strict hr hscan hv hunique hnests, ok_bind]
    exact if_pos hrest

end Hooks
end Python
