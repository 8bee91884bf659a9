import Mathlib.Data.List.Basic
import Mathlib.Data.Nat.Notation

/-! Lists in which a partial key identifies its element. -/
namespace Unique
variable {α β : Type} {key : α → Option β} {l : List α}

/-- No two positions carry the same key; positions without a key are free. -/
def UniqueKeys (key : α → Option β) (l : List α) : Prop :=
  ∀ ⦃i j : ℕ⦄ ⦃a b : α⦄ ⦃k : β⦄, l[i]? = some a → l[j]? = some b →
    key a = some k → key b = some k → i = j

theorem uniqueKeys_nil : UniqueKeys key [] := by
  intro i j a b k hi
  simp at hi

theorem UniqueKeys.append (h : UniqueKeys key l) {x : α} (hx : key x = none) :
    UniqueKeys key (l ++ [x]) := by
  have hold {i : ℕ} {a : α} {k : β} (hi : (l ++ [x])[i]? = some a) (hk : key a = some k) :
      l[i]? = some a := by
    rcases Nat.lt_or_ge i l.length with hlt | hge
    · rwa [List.getElem?_append_left hlt] at hi
    · rw [List.getElem?_append_right hge] at hi
      obtain rfl := List.mem_singleton.mp (List.mem_of_getElem? hi)
      simp [hx] at hk
  intro i j a b k hi hj ha hb
  exact h (hold hi ha) (hold hj hb) ha hb

/-- A replaced element may keep its key, drop it, or take one that nobody else has. -/
theorem UniqueKeys.set (h : UniqueKeys key l) {i : ℕ} {x : α}
    (hx : ∀ k, key x = some k → ∀ j b, l[j]? = some b → key b = some k → j = i) :
    UniqueKeys key (l.set i x) := by
  have hcases {j : ℕ} {b : α} (hj : (l.set i x)[j]? = some b) :
      (j = i ∧ b = x) ∨ (j ≠ i ∧ l[j]? = some b) := by
    by_cases hij : i = j
    · subst hij
      exact Or.inl ⟨rfl, List.mem_singleton.mp (by simp_all [List.getElem?_set])⟩
    · rw [List.getElem?_set_ne hij] at hj
      exact Or.inr ⟨Ne.symm hij, hj⟩
  intro j j' a b k hj hj' ha hb
  rcases hcases hj with ⟨rfl, rfl⟩ | ⟨hne, hold⟩
  · rcases hcases hj' with ⟨rfl, -⟩ | ⟨hne', hold'⟩
    · rfl
    · exact absurd (hx k ha j' b hold' hb) hne'
  · rcases hcases hj' with ⟨rfl, rfl⟩ | ⟨hne', hold'⟩
    · exact absurd (hx k hb j a hold ha) hne
    · exact h hold hold' ha hb

/-- A replaced element that takes no new key. -/
theorem UniqueKeys.set_of_imp (h : UniqueKeys key l) {i : ℕ} {a x : α} (hi : l[i]? = some a)
    (hx : ∀ k, key x = some k → key a = some k) : UniqueKeys key (l.set i x) := by
  apply h.set
  intro k hk j b hj hb
  exact h hj hi hb (hx k hk)

theorem UniqueKeys.countP_le_one (h : UniqueKeys key l) {P : α → Bool} {k : β}
    (hP : ∀ a ∈ l, P a = true → key a = some k) : l.countP P ≤ 1 := by
  induction l with
  | nil => simp
  | cons x rest ih =>
    have htail : UniqueKeys key rest := by
      intro i j a b k hi hj ha hb
      exact Nat.succ.inj (h (i := i + 1) (j := j + 1) hi hj ha hb)
    by_cases hx : P x = true
    · have hzero : rest.countP P = 0 := by
        rw [List.countP_eq_zero]
        intro a ha hpa
        obtain ⟨j, hj⟩ := List.getElem?_of_mem ha
        have hkx := hP x List.mem_cons_self hx
        have hka := hP a (List.mem_cons_of_mem _ ha) hpa
        exact absurd (h (i := 0) (j := j + 1) rfl hj hkx hka) (Nat.succ_ne_zero j).symm
      simp [hx, hzero]
    · rw [List.countP_cons_of_neg hx]
      exact ih htail fun a ha => hP a (List.mem_cons_of_mem _ ha)

/-- In a list without a key twice every pair is found. -/
theorem lookup_of_mem [BEq α] [LawfulBEq α] {members : List (α × β)} (hkeys : (members.map Prod.fst).Nodup)
    {m : α × β} (hm : m ∈ members) : members.lookup m.1 = some m.2 := by
  induction members with
  | nil => cases hm
  | cons first members ih =>
    rw [List.map_cons, List.nodup_cons] at hkeys
    rcases List.mem_cons.mp hm with rfl | hm
    · rw [List.lookup_cons, beq_self_eq_true]
    · have hne : m.1 ≠ first.1 := fun h => hkeys.1 (h ▸ List.mem_map_of_mem hm)
      rw [List.lookup_cons, beq_false_of_ne hne]
      exact ih hkeys.2 hm

end Unique
