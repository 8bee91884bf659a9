import Mathlib.Tactic

/-! Sequences of checks that stop at the first failure. -/
namespace Checks
variable {ε α β : Type}

theorem bind_eq_ok {x : Except ε α} {f : α → Except ε β} {b : β} :
    x >>= f = .ok b ↔ ∃ a, x = .ok a ∧ f a = .ok b := by
  rcases x with e | a
  · simp [bind, Except.bind]
  · simp [bind, Except.bind]

/-- A refused check in front of the remaining checks. -/
theorem check_eq_ok {c : Prop} [Decidable c] {e : ε} {x : Except ε α} {a : α} :
    (if c then .error e else x) = .ok a ↔ ¬ c ∧ x = .ok a := by
  split <;> simp [*]

@[simp] theorem ok_bind (a : α) (f : α → Except ε β) : (Except.ok a >>= f) = f a := rfl

@[simp] theorem error_bind (e : ε) (f : α → Except ε β) : (Except.error e >>= f) = .error e := rfl

@[simp] theorem throw_eq_error (e : ε) : (throw e : Except ε α) = .error e := rfl

@[simp] theorem pure_eq_ok (a : α) : (pure a : Except ε α) = .ok a := rfl

theorem toOption_eq_some {x : Except ε α} {a : α} : x.toOption = some a ↔ x = .ok a := by
  cases x <;> simp [Except.toOption]

theorem guard_bind_eq_some {p : Prop} [Decidable p] {f : Unit → Option α} {a : α} :
    (guard p >>= f) = some a ↔ p ∧ f () = some a := by
  by_cases hp : p
  · simp [guard, hp]
  · simp [guard, hp, failure]

theorem mapM_eq_ok {f : α → Except ε β} {xs : List α} {ys : List β} :
    xs.mapM f = .ok ys ↔ List.Forall₂ (fun x y => f x = .ok y) xs ys := by
  induction xs generalizing ys with
  | nil => simp [eq_comm]
  | cons x xs ih =>
    rw [List.mapM_cons, bind_eq_ok]
    simp only [bind_eq_ok, ih, pure_eq_ok, Except.ok.injEq, List.forall₂_cons_left_iff]
    constructor
    · rintro ⟨y, hy, ys, hys, rfl⟩
      exact ⟨y, ys, hy, hys, rfl⟩
    · rintro ⟨y, ys, hy, hys, rfl⟩
      exact ⟨y, hy, ys, hys, rfl⟩

theorem exists_of_mem_right {R : α → β → Prop} {xs : List α} {ys : List β}
    (h : List.Forall₂ R xs ys) {y : β} (hy : y ∈ ys) : ∃ x ∈ xs, R x y := by
  induction h with
  | nil => cases hy
  | @cons x y' xs ys hxy _ ih =>
    rcases List.mem_cons.mp hy with rfl | hy
    · exact ⟨x, List.mem_cons_self, hxy⟩
    · obtain ⟨x, hx, hxy⟩ := ih hy
      exact ⟨x, List.mem_cons_of_mem _ hx, hxy⟩

theorem exists_of_mem_left {R : α → β → Prop} {xs : List α} {ys : List β}
    (h : List.Forall₂ R xs ys) {x : α} (hx : x ∈ xs) : ∃ y ∈ ys, R x y :=
  exists_of_mem_right h.flip hx

theorem mapM_total {f : α → Except ε β} {xs : List α} (h : ∀ x ∈ xs, ∃ y, f x = .ok y) : ∃ ys, xs.mapM f = .ok ys := by
  induction xs with
  | nil => exact ⟨[], rfl⟩
  | cons x xs ih =>
    obtain ⟨y, hy⟩ := h x List.mem_cons_self
    obtain ⟨ys, hys⟩ := ih fun x hx => h x (List.mem_cons_of_mem _ hx)
    refine ⟨y :: ys, ?_⟩
    rw [List.mapM_cons, hy, hys]
    rfl

/-- A function that fails in one way, and exactly where `B` holds, fails so on a list. -/
theorem mapM_dichotomy {f : α → Except ε β} {e : ε} {B : α → Prop} {xs : List α}
    (h : ∀ x ∈ xs, (¬ B x ∧ ∃ y, f x = .ok y) ∨ (B x ∧ f x = .error e)) :
    ((∀ x ∈ xs, ¬ B x) ∧ ∃ ys, xs.mapM f = .ok ys) ∨ ((∃ x ∈ xs, B x) ∧ xs.mapM f = .error e) := by
  induction xs with
  | nil => exact Or.inl ⟨by simp, [], rfl⟩
  | cons x xs ih =>
    rw [List.mapM_cons]
    rcases h x List.mem_cons_self with ⟨hx, y, hy⟩ | ⟨hx, hy⟩
    · rcases ih fun x hx => h x (List.mem_cons_of_mem _ hx) with ⟨hxs, ys, hys⟩ | ⟨⟨z, hz, hB⟩, hys⟩
      · refine Or.inl ⟨List.forall_mem_cons.mpr ⟨hx, hxs⟩, y :: ys, ?_⟩
        rw [hy, hys]
        rfl
      · refine Or.inr ⟨⟨z, List.mem_cons_of_mem _ hz, hB⟩, ?_⟩
        rw [hy, hys]
        rfl
    · refine Or.inr ⟨⟨x, List.mem_cons_self, hx⟩, ?_⟩
      rw [hy]
      rfl

/-- Two loops that both pass stay related when each pair of their steps does. -/
theorem foldlM_related {σ τ : Type} {V : σ → τ → Prop} {R : α → β → Prop} {f : σ → α → Except ε σ}
    {g : τ → β → Except ε τ} {xs : List α} {ys : List β} (hxs : List.Forall₂ R xs ys)
    (hstep : ∀ a b x y a' b', R x y → V a b → f a x = .ok a' → g b y = .ok b' → V a' b') {a a' : σ} {b b' : τ}
    (h : V a b) (ha : xs.foldlM f a = .ok a') (hb : ys.foldlM g b = .ok b') : V a' b' := by
  induction hxs generalizing a b with
  | nil =>
    obtain rfl := Except.ok.inj ha
    obtain rfl := Except.ok.inj hb
    exact h
  | @cons x y xs ys hxy _ ih =>
    rw [List.foldlM_cons] at ha hb
    obtain ⟨c, hc, ha⟩ := bind_eq_ok.mp ha
    obtain ⟨d, hd, hb⟩ := bind_eq_ok.mp hb
    exact ih (hstep a b x y c d hxy h hc hd) ha hb

end Checks
