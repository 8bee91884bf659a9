import AzdSanta.Common.Sorting
import AzdSanta.Common.Unique
import AzdSanta.Python.JsonHooks

/-! Values that differ in the order of their members, which `sort_keys` does not tell apart. -/
namespace Python
open Checks

/-- Equality up to the order of members, at any place. -/
inductive Reordered : Json → Json → Prop
  | refl (v : Json) : Reordered v v
  | trans {u v w : Json} (h : Reordered u v) (h' : Reordered v w) : Reordered u w
  | members {ms ms' : List (Text × Json)} (hperm : ms.Perm ms') : Reordered (.obj ms) (.obj ms')
  | item {v v' : Json} (before after : List Json) (h : Reordered v v') :
      Reordered (.arr (before ++ v :: after)) (.arr (before ++ v' :: after))
  | member {v v' : Json} (before after : List (Text × Json)) (key : Text) (h : Reordered v v') :
      Reordered (.obj (before ++ (key, v) :: after)) (.obj (before ++ (key, v') :: after))

section Reordered
variable {v v' : Json}

theorem Reordered.unique (h : Reordered v v') (hv : ¬ Duplicate v) : ¬ Duplicate v' := by
  induction h with
  | refl => exact hv
  | trans _ _ ih ih' => exact ih' (ih hv)
  | members hperm =>
    obtain ⟨hnodup, hms⟩ := not_duplicate_obj.mp hv
    apply not_duplicate_obj.mpr
    constructor
    · exact (hperm.map Prod.fst).nodup_iff.mp hnodup
    · exact fun m hm => hms m (hperm.mem_iff.mpr hm)
  | item before after _ ih =>
    rw [not_duplicate_arr] at hv ⊢
    simp only [List.forall_mem_append, List.forall_mem_cons] at hv ⊢
    exact ⟨hv.1, ih hv.2.1, hv.2.2⟩
  | member before after key _ ih =>
    rw [not_duplicate_obj] at hv ⊢
    simp only [List.map_append, List.map_cons, List.forall_mem_append, List.forall_mem_cons] at hv ⊢
    exact ⟨hv.1, hv.2.1, ih hv.2.2.1, hv.2.2.2⟩

/-- What the writer reads of a member. -/
def Writer.entry (w : Writer) (depth : ℕ) (m : Text × Json) : Text × Except JsonError Text := (m.1, w.print depth m.2)

theorem mapM_entry (w : Writer) (depth : ℕ) (ms : List (Text × Json)) :
    (ms.mapM fun m => do
      let value ← w.print depth m.2
      return quote w.ascii m.1 ++ w.colon ++ value) =
    (ms.map (w.entry depth)).mapM fun e => do
      let value ← e.2
      return quote w.ascii e.1 ++ w.colon ++ value := by
  induction ms with
  | nil => rfl
  | cons m ms ih =>
    rw [List.mapM_cons, ih, List.map_cons, List.mapM_cons]
    rfl

/-- An object is printed from its entries in the order of the keys. -/
theorem print_obj {w : Writer} (hw : w.sorted = true) (depth : ℕ) (ms : List (Text × Json)) :
    w.print (depth + 1) (.obj ms) = do
      let parts ← ((ms.map (w.entry depth)).insertionSort fun a b => a.1 ≤ b.1).mapM fun e => do
        let value ← e.2
        return quote w.ascii e.1 ++ w.colon ++ value
      return 123 :: w.comma.intercalate parts ++ [125] := by
  have hsort : (sortMembers ms).map (w.entry depth) =
      (ms.map (w.entry depth)).insertionSort fun a b => a.1 ≤ b.1 :=
    List.map_insertionSort _ _ (w.entry depth) ms fun _ _ _ _ => Iff.rfl
  rw [Writer.print, if_pos hw, mapM_entry, hsort]

/-- A sorted print does not depend on the order of the members. -/
theorem Reordered.print {w : Writer} (hw : w.sorted = true) (h : Reordered v v') (hv : ¬ Duplicate v) (depth : ℕ) :
    w.print depth v' = w.print depth v := by
  induction h generalizing depth with
  | refl => rfl
  | trans h _ ih ih' => rw [ih' (h.unique hv), ih hv]
  | @members ms ms' hperm =>
    cases depth with
    | zero => rw [Writer.print, Writer.print]
    | succ depth =>
      have hkeys : (ms.map (w.entry depth)).map Prod.fst = ms.map Prod.fst := by
        rw [List.map_map]
        rfl
      have hnodup : ((ms.map (w.entry depth)).map Prod.fst).Nodup := hkeys ▸ (not_duplicate_obj.mp hv).1
      rw [print_obj hw, print_obj hw, Sorting.insertionSort_eq_of_perm (hperm.map (w.entry depth)) hnodup]
  | item before after _ ih =>
    cases depth with
    | zero => rw [Writer.print, Writer.print]
    | succ depth =>
      have hitem := ih (not_duplicate_arr.mp hv _ (by simp)) depth
      simp only [Writer.print, List.mapM_append, List.mapM_cons, hitem]
  | member before after key _ ih =>
    cases depth with
    | zero => rw [Writer.print, Writer.print]
    | succ depth =>
      have hvalue := ih ((not_duplicate_obj.mp hv).2 (key, _) (by simp)) depth
      have hentry : w.entry depth (key, _) = w.entry depth (key, _) := congrArg (Prod.mk key) hvalue
      rw [print_obj hw, print_obj hw, List.map_append, List.map_cons, hentry, List.map_append, List.map_cons]

theorem Reordered.str {s : Text} (h : Reordered v v') (hv : v = .str s) : v' = .str s := by
  induction h with
  | refl => exact hv
  | trans _ _ ih ih' => exact ih' (ih hv)
  | members | item | member => cases hv

/-- The strings of an object stay under their names. -/
theorem Reordered.lookup {ms : List (Text × Json)} (h : Reordered (.obj ms) v') (hunique : ¬ Duplicate (.obj ms)) :
    ∃ ms', v' = .obj ms' ∧ ∀ key s, ms.lookup key = some (.str s) → ms'.lookup key = some (.str s) := by
  generalize hv : Json.obj ms = v at h hunique
  induction h generalizing ms with
  | refl => exact ⟨ms, hv.symm, fun _ _ h => h⟩
  | trans h _ ih ih' =>
    obtain ⟨ms', rfl, hfirst⟩ := ih hv hunique
    obtain ⟨ms'', rfl, hsecond⟩ := ih' rfl (h.unique hunique)
    exact ⟨ms'', rfl, fun key s hs => hsecond key s (hfirst key s hs)⟩
  | @members ms₁ ms' hperm =>
    obtain rfl := Json.obj.inj hv
    refine ⟨ms', rfl, fun key s hs => ?_⟩
    have hnodup := (hperm.map Prod.fst).nodup_iff.mp (not_duplicate_obj.mp hunique).1
    obtain ⟨before, after, rfl, -⟩ := List.lookup_eq_some_iff.mp hs
    have hmem : (key, Json.str s) ∈ ms' := hperm.mem_iff.mp (by simp)
    exact Unique.lookup_of_mem hnodup hmem
  | item => cases hv
  | @member u u' before after key h _ =>
    obtain rfl := Json.obj.inj hv
    refine ⟨_, rfl, fun name s hs => ?_⟩
    rw [List.lookup_append, List.lookup_cons] at hs ⊢
    cases hbefore : before.lookup name with
    | some value => rwa [hbefore] at hs
    | none =>
      rw [hbefore, Option.none_or] at hs
      rw [Option.none_or]
      by_cases hname : name == key
      · rw [hname] at hs ⊢
        rw [h.str (Option.some.inj hs)]
      · rw [Bool.not_eq_true] at hname
        rwa [hname] at hs ⊢

end Reordered
end Python
