import AzdSanta.Common.Processes

/-! One program at a time against a state, each of which can stop at any of its calls. -/
namespace Sequential
open Processes

variable {ω ρ σ α β : Type}

theorem bind_ret (p : Prog ω ρ α) : p.bind .ret = p := by
  induction p with
  | ret | fail => rfl
  | call op next ih => exact congrArg (Prog.call op) (funext ih)

instance : LawfulMonad (Prog ω ρ) := LawfulMonad.mk' (Prog ω ρ) bind_ret (fun _ _ => rfl) fun p f g => by
  change (p.bind f).bind g = p.bind fun a => (f a).bind g
  induction p with
  | ret | fail => rfl
  | call op next ih => exact congrArg (Prog.call op) (funext ih)

/-- How a run comes to its end; a crash or a lost reply stops it. -/
inductive Ending (α : Type) where
  | returned (a : α)
  | failed
  | stopped

/-- A run of a program. `effect op r s s'` says that `op` can be answered by `r` in `s` and leaves `s'`. -/
inductive Exec (effect : ω → ρ → σ → σ → Prop) : Prog ω ρ α → σ → Ending α → σ → Prop
  | stop (p : Prog ω ρ α) (s : σ) : Exec effect p s .stopped s
  | ret (a : α) (s : σ) : Exec effect (.ret a) s (.returned a) s
  | fail (s : σ) : Exec effect .fail s .failed s
  | call {op : ω} {next : ρ → Prog ω ρ α} {r : ρ} {s s' s'' : σ} {e : Ending α} (hop : effect op r s s')
      (hnext : Exec effect (next r) s' e s'') : Exec effect (.call op next) s e s''

section Steps
variable {effect : ω → ρ → σ → σ → Prop} {s s' s'' : σ}

theorem Exec.bind {p : Prog ω ρ α} {f : α → Prog ω ρ β} {a : α} {e : Ending β}
    (h : Exec effect p s (.returned a) s') (hrest : Exec effect (f a) s' e s'') : Exec effect (p >>= f) s e s'' := by
  induction p generalizing s with
  | ret b =>
    cases h
    exact hrest
  | fail => cases h
  | call op next ih =>
    cases h with
    | call hop hnext => exact .call hop (ih _ hnext)

theorem exec_invoke {op : ω} {value : ρ → Option α} {r : ρ} {a : α} (hop : effect op r s s') (hvalue : value r = some a) :
    Exec effect (invoke op value) s (.returned a) s' := by
  refine .call hop ?_
  rw [hvalue]
  exact .ret a s'

/-- A reply that is none of those that are expected. -/
theorem exec_invoke_none {op : ω} {value : ρ → Option α} {f : α → Prog ω ρ β} {r : ρ} (hop : effect op r s s')
    (hvalue : value r = none) : Exec effect (invoke op value >>= f) s .failed s' := by
  refine .call hop ?_
  change Exec effect (ofOption (value r) >>= f) s' .failed s'
  rw [hvalue]
  exact .fail s'

theorem exec_ofOption {x : Option α} {a : α} (hx : x = some a) :
    Exec effect (ofOption x) s (.returned a) s := by
  rw [hx]
  exact .ret a s

theorem exec_need {c : Prop} [Decidable c] (hc : c) : Exec effect (need c) s (.returned ()) s := by
  rw [need, if_pos hc]
  exact .ret () s

end Steps

/-- Every state on the way satisfies `I`, and the state with the result satisfies `Q`. -/
def Ensures (effect : ω → ρ → σ → σ → Prop) (I : σ → Prop) : Prog ω ρ α → (α → σ → Prop) → σ → Prop
  | .ret a, Q, s => Q a s
  | .fail, _, _ => True
  | .call op next, Q, s => ∀ r s', effect op r s s' → I s' ∧ Ensures effect I (next r) Q s'

variable {effect : ω → ρ → σ → σ → Prop} {I : σ → Prop} {s : σ} {Q : β → σ → Prop}

theorem Ensures.exec {p : Prog ω ρ β} (h : Ensures effect I p Q s) (hs : I s) {e : Ending β} {s' : σ}
    (hexec : Exec effect p s e s') : I s' ∧ ∀ b, e = .returned b → Q b s' := by
  induction hexec with
  | stop => exact ⟨hs, nofun⟩
  | ret a s =>
    refine ⟨hs, fun b hb => ?_⟩
    cases hb
    exact h
  | fail => exact ⟨hs, nofun⟩
  | call hop _ ih =>
    obtain ⟨hinv, hnext⟩ := h _ _ hop
    exact ih hnext hinv

theorem ensures_bind {p : Prog ω ρ α} {f : α → Prog ω ρ β}
    (h : Ensures effect I p (fun a => Ensures effect I (f a) Q) s) : Ensures effect I (p >>= f) Q s := by
  induction p generalizing s with
  | ret a => exact h
  | fail => trivial
  | call op next ih =>
    intro r s' hop
    obtain ⟨hinv, hnext⟩ := h r s' hop
    exact ⟨hinv, ih r hnext⟩

theorem Ensures.mono {p : Prog ω ρ β} {Q' : β → σ → Prop} (h : Ensures effect I p Q s)
    (himp : ∀ b s, Q b s → Q' b s) : Ensures effect I p Q' s := by
  induction p generalizing s with
  | ret a => exact himp a s h
  | fail => trivial
  | call op next ih =>
    intro r s' hop
    obtain ⟨hinv, hnext⟩ := h r s' hop
    exact ⟨hinv, ih r hnext⟩

theorem Ensures.imp {J : σ → Prop} {p : Prog ω ρ β} (h : Ensures effect I p Q s) (himp : ∀ s, I s → J s) :
    Ensures effect J p Q s := by
  induction p generalizing s with
  | ret a => exact h
  | fail => trivial
  | call op next ih =>
    intro r s' hop
    obtain ⟨hinv, hnext⟩ := h r s' hop
    exact ⟨himp s' hinv, ih r hnext⟩

/-- A run of a sequence ends in its first part or goes on with the second. -/
theorem exec_bind {p : Prog ω ρ α} {f : α → Prog ω ρ β} {e : Ending β} {s' : σ}
    (h : Exec effect (p >>= f) s e s') :
    (e = .failed ∧ Exec effect p s .failed s') ∨ (e = .stopped ∧ Exec effect p s .stopped s') ∨
      ∃ a t, Exec effect p s (.returned a) t ∧ Exec effect (f a) t e s' := by
  induction p generalizing s with
  | ret a => exact Or.inr (Or.inr ⟨a, s, .ret a s, h⟩)
  | fail =>
    cases h with
    | stop => exact Or.inr (Or.inl ⟨rfl, .stop _ _⟩)
    | fail => exact Or.inl ⟨rfl, .fail _⟩
  | call op next ih =>
    cases h with
    | stop => exact Or.inr (Or.inl ⟨rfl, .stop _ _⟩)
    | call hop hnext =>
      rcases ih _ hnext with ⟨he, hfirst⟩ | ⟨he, hfirst⟩ | ⟨a, t, hfirst, hrest⟩
      · exact Or.inl ⟨he, .call hop hfirst⟩
      · exact Or.inr (Or.inl ⟨he, .call hop hfirst⟩)
      · exact Or.inr (Or.inr ⟨a, t, .call hop hfirst, hrest⟩)

theorem ensures_need {c : Prop} [Decidable c] {Q : Unit → σ → Prop} (h : c → Q () s) :
    Ensures effect I (need c) Q s := by
  unfold need
  split_ifs with hc
  · exact h hc
  · trivial

theorem ensures_ofOption {x : Option β} (h : ∀ b, x = some b → Q b s) : Ensures effect I (ofOption x) Q s := by
  cases x with
  | none => trivial
  | some b => exact h b rfl

theorem ensures_invoke {op : ω} {value : ρ → Option β}
    (h : ∀ r s', effect op r s s' → I s' ∧ ∀ b, value r = some b → Q b s') :
    Ensures effect I (invoke op value) Q s := by
  intro r s' hop
  obtain ⟨hinv, hvalue⟩ := h r s' hop
  exact ⟨hinv, ensures_ofOption hvalue⟩

/-- A loop over a list: `P` holds of what is left and what was returned so far. -/
theorem ensures_mapM {f : α → Prog ω ρ β} (P : List α → List β → σ → Prop)
    (hstep : ∀ x xs done s, P (x :: xs) done s → Ensures effect I (f x) (fun y => P xs (done ++ [y])) s)
    (xs : List α) (done : List β) (h : P xs done s) :
    Ensures effect I (xs.mapM f) (fun ys => P [] (done ++ ys)) s := by
  induction xs generalizing done s with
  | nil =>
    change P [] (done ++ []) s
    rwa [List.append_nil]
  | cons x xs ih =>
    rw [List.mapM_cons]
    refine ensures_bind ((hstep x xs done s h).mono fun y s' hy => ?_)
    refine ensures_bind ((ih _ hy).mono fun ys s'' hys => ?_)
    change P [] (done ++ y :: ys) s''
    rwa [List.append_assoc] at hys

/-- One run after another. -/
def Runs {κ : Type} (effect : ω → ρ → σ → σ → Prop) (program : κ → Prog ω ρ α) : σ → σ → Prop :=
  Relation.ReflTransGen fun s s' => ∃ k e, Exec effect (program k) s e s'

theorem Runs.invariant {κ : Type} {program : κ → Prog ω ρ α} {s' : σ} (h : Runs effect program s s')
    (hs : I s) (hrun : ∀ k s, I s → Ensures effect I (program k) (fun _ _ => True) s) : I s' := by
  induction h with
  | refl => exact hs
  | tail _ hexec ih =>
    obtain ⟨k, e, hexec⟩ := hexec
    exact ((hrun k _ ih).exec ih hexec).1

section Total
variable {p : Prog ω ρ α} {f : α → Prog ω ρ β}

/-- Every call can be answered, and however the calls are answered the program comes to a result with `Q`. -/
def Delivers (effect : ω → ρ → σ → σ → Prop) : Prog ω ρ α → (α → σ → Prop) → σ → Prop
  | .ret a, Q, s => Q a s
  | .fail, _, _ => False
  | .call op next, Q, s =>
    (∃ r s', effect op r s s') ∧ ∀ r s', effect op r s s' → Delivers effect (next r) Q s'

/-- Nothing but a crash keeps the program from its result. -/
theorem Delivers.exec {Q : α → σ → Prop} (h : Delivers effect p Q s) {e : Ending α} {s' : σ}
    (hexec : Exec effect p s e s') : e ≠ .failed ∧ ∀ a, e = .returned a → Q a s' := by
  induction hexec with
  | stop =>
    constructor
    · rintro ⟨⟩
    · rintro a ⟨⟩
  | ret a s =>
    constructor
    · rintro ⟨⟩
    · rintro b ⟨⟩
      exact h
  | fail => exact h.elim
  | call hop _ ih => exact ih (h.2 _ _ hop)

theorem Delivers.returns {Q : α → σ → Prop} (h : Delivers effect p Q s) :
    ∃ a s', Exec effect p s (.returned a) s' ∧ Q a s' := by
  induction p generalizing s with
  | ret a => exact ⟨a, s, .ret a s, h⟩
  | fail => exact h.elim
  | call op next ih =>
    obtain ⟨⟨r, t, hop⟩, hnext⟩ := h
    obtain ⟨a, s', hexec, hQ⟩ := ih r (hnext r t hop)
    exact ⟨a, s', .call hop hexec, hQ⟩

theorem Delivers.mono {Q Q' : α → σ → Prop} (h : Delivers effect p Q s) (himp : ∀ a s, Q a s → Q' a s) :
    Delivers effect p Q' s := by
  induction p generalizing s with
  | ret a => exact himp a s h
  | fail => exact h
  | call op next ih => exact ⟨h.1, fun r s' hop => ih r (h.2 r s' hop)⟩

theorem delivers_bind (h : Delivers effect p (fun a => Delivers effect (f a) Q) s) :
    Delivers effect (p >>= f) Q s := by
  induction p generalizing s with
  | ret a => exact h
  | fail => exact h
  | call op next ih => exact ⟨h.1, fun r s' hop => ih r (h.2 r s' hop)⟩

theorem delivers_need {c : Prop} [Decidable c] {Q : Unit → σ → Prop} (hc : c) (h : Q () s) :
    Delivers effect (need c) Q s := by
  rw [need, if_pos hc]
  exact h

theorem delivers_ofOption {x : Option β} {b : β} (hx : x = some b) (h : Q b s) : Delivers effect (ofOption x) Q s := by
  rw [hx]
  exact h

theorem delivers_invoke {op : ω} {value : ρ → Option β} (hgranted : ∃ r s', effect op r s s')
    (h : ∀ r s', effect op r s s' → ∃ b, value r = some b ∧ Q b s') : Delivers effect (invoke op value) Q s := by
  refine ⟨hgranted, fun r s' hop => ?_⟩
  obtain ⟨b, hvalue, hQ⟩ := h r s' hop
  exact delivers_ofOption hvalue hQ

end Total

end Sequential
