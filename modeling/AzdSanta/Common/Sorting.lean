import Mathlib.Data.List.Sort

/-! Sorting by keys that no two elements share. -/
namespace Sorting
variable {α β : Type} [LinearOrder β]

/-- The order the elements came in does not matter. -/
theorem insertionSort_eq_of_perm {key : α → β} [DecidableRel fun a b => key a ≤ key b] {l l' : List α}
    (hperm : l.Perm l') (hnodup : (l.map key).Nodup) :
    l.insertionSort (fun a b => key a ≤ key b) = l'.insertionSort (fun a b => key a ≤ key b) := by
  have hsorted (l : List α) :
      (l.insertionSort fun a b => key a ≤ key b).Pairwise fun a b => key a ≤ key b := by
    have htotal : Std.Total fun a b : α => key a ≤ key b := ⟨fun a b => le_total (key a) (key b)⟩
    have htrans : IsTrans α fun a b => key a ≤ key b := ⟨fun a b c => le_trans⟩
    exact List.pairwise_insertionSort _ l
  apply List.Perm.eq_of_pairwise _ (hsorted l) (hsorted l')
  · exact (List.perm_insertionSort _ l).trans (hperm.trans (List.perm_insertionSort _ l').symm)
  · intro a b ha hb hab hba
    have ha : a ∈ l := (List.mem_insertionSort _).mp ha
    have hb : b ∈ l := hperm.mem_iff.mpr ((List.mem_insertionSort _).mp hb)
    exact List.inj_on_of_nodup_map hnodup ha hb (le_antisymm hab hba)

end Sorting
