import AzdSanta.Common.Processes

/-! The trail of a program: its calls with the replies it was given, the last one in front.
Routines are programs with a state of their own and with errors. -/
namespace Processes
variable {ω ρ α β : Type}

abbrev Trail (ω ρ : Type) := List (ω × ρ)

/-- What a program leaves behind `log` when it is given these replies. It stops with the last of them. -/
def Prog.trail : Prog ω ρ α → List ρ → Trail ω ρ → Trail ω ρ
  | .call op next, r :: replies, log => (next r).trail replies ((op, r) :: log)
  | .call _ _, [], log | .ret _, _, log | .fail, _, log => log

/-- Every call of the program is allowed when it is made, whatever the replies, and if it returns, `Q`
holds. -/
def Follows (allowed : ω × ρ → Trail ω ρ → Prop) : Prog ω ρ α → (α → Trail ω ρ → Prop) → Trail ω ρ → Prop
  | .ret a, Q, log => Q a log
  | .fail, _, _ => True
  | .call op next, Q, log => ∀ r, allowed (op, r) log ∧ Follows allowed (next r) Q ((op, r) :: log)

section Rules
variable {allowed : ω × ρ → Trail ω ρ → Prop} {log : Trail ω ρ}

theorem Follows.lawful {p : Prog ω ρ α} {Q : α → Trail ω ρ → Prop} (h : Follows allowed p Q log)
    (hlog : Lawful allowed log) (replies : List ρ) : Lawful allowed (p.trail replies log) := by
  induction p generalizing log replies with
  | ret | fail => exact hlog
  | call op next ih =>
    cases replies with
    | nil => exact hlog
    | cons r replies => exact ih r (h r).2 ⟨(h r).1, hlog⟩ replies

theorem follows_bind {p : Prog ω ρ α} {f : α → Prog ω ρ β} {Q : β → Trail ω ρ → Prop}
    (h : Follows allowed p (fun a => Follows allowed (f a) Q) log) : Follows allowed (p >>= f) Q log := by
  induction p generalizing log with
  | ret a => exact h
  | fail => trivial
  | call op next ih => exact fun r => ⟨(h r).1, ih r (h r).2⟩

theorem Follows.mono {p : Prog ω ρ α} {Q Q' : α → Trail ω ρ → Prop} (h : Follows allowed p Q log)
    (himp : ∀ a log, Q a log → Q' a log) : Follows allowed p Q' log := by
  induction p generalizing log with
  | ret a => exact himp a log h
  | fail => trivial
  | call op next ih => exact fun r => ⟨(h r).1, ih r (h r).2⟩

theorem Follows.imp {allowed' : ω × ρ → Trail ω ρ → Prop} {p : Prog ω ρ α} {Q : α → Trail ω ρ → Prop}
    (h : Follows allowed p Q log) (himp : ∀ e log, allowed e log → allowed' e log) : Follows allowed' p Q log := by
  induction p generalizing log with
  | ret a => exact h
  | fail => trivial
  | call op next ih => exact fun r => ⟨himp _ _ (h r).1, ih r (h r).2⟩

end Rules

/-- A program with a state that survives its errors. -/
abbrev Routine (ω ρ ε τ α : Type) := ExceptT ε (StateT τ (Prog ω ρ)) α

section Routines
variable {ε τ : Type}

def Routine.call (op : ω) (value : ρ → Option α) : Routine ω ρ ε τ α := fun t => do
  let a ← invoke op value
  return (.ok a, t)

/-- `try: x finally: f`. -/
def Routine.finally (x : Routine ω ρ ε τ α) (f : Routine ω ρ ε τ Unit) : Routine ω ρ ε τ α := fun t => do
  let (r, t) ← x t
  let (r', t) ← f t
  match r' with
  | .ok () => return (r, t)
  | .error e => return (.error e, t)

def Routine.ofOption (e : ε) : Option α → Routine ω ρ ε τ α
  | some a => pure a
  | none => throw e

def Routine.need (e : ε) (c : Prop) [Decidable c] : Routine ω ρ ε τ Unit := if c then pure () else throw e

/-- What a routine does: `Q` of its result or error, its state and the trail. -/
def Meets (allowed : ω × ρ → Trail ω ρ → Prop) (x : Routine ω ρ ε τ α)
    (Q : Except ε α → τ → Trail ω ρ → Prop) (t : τ) (log : Trail ω ρ) : Prop :=
  Follows allowed (x t) (fun p => Q p.1 p.2) log

variable {allowed : ω × ρ → Trail ω ρ → Prop} {log : Trail ω ρ} {t : τ} {Q : Except ε β → τ → Trail ω ρ → Prop}

theorem meets_pure {b : β} (h : Q (.ok b) t log) : Meets allowed (pure b : Routine ω ρ ε τ β) Q t log := h

theorem meets_throw {e : ε} (h : Q (.error e) t log) : Meets allowed (throw e : Routine ω ρ ε τ β) Q t log := h

theorem Meets.mono {x : Routine ω ρ ε τ β} {Q' : Except ε β → τ → Trail ω ρ → Prop} (h : Meets allowed x Q t log)
    (himp : ∀ r t log, Q r t log → Q' r t log) : Meets allowed x Q' t log :=
  Follows.mono h fun p log => himp p.1 p.2 log

theorem Meets.imp {x : Routine ω ρ ε τ β} {allowed' : ω × ρ → Trail ω ρ → Prop} (h : Meets allowed x Q t log)
    (himp : ∀ e log, allowed e log → allowed' e log) : Meets allowed' x Q t log := Follows.imp h himp

/-- What the rest of a sequence has to do with the result of its first part. -/
def Then (allowed : ω × ρ → Trail ω ρ → Prop) (f : α → Routine ω ρ ε τ β)
    (Q : Except ε β → τ → Trail ω ρ → Prop) : Except ε α → τ → Trail ω ρ → Prop
  | .ok a, t, log => Meets allowed (f a) Q t log
  | .error e, t, log => Q (.error e) t log

theorem meets_bind {x : Routine ω ρ ε τ α} {f : α → Routine ω ρ ε τ β}
    (h : Meets allowed x (Then allowed f Q) t log) : Meets allowed (x >>= f) Q t log := by
  refine follows_bind (Follows.mono h ?_)
  rintro ⟨r, t⟩ log hr
  cases r with
  | ok a => exact hr
  | error e => exact hr

theorem meets_get {f : τ → Routine ω ρ ε τ β} (h : Meets allowed (f t) Q t log) :
    Meets allowed (get >>= f) Q t log := h

theorem meets_modify {g : τ → τ} {Q : Except ε Unit → τ → Trail ω ρ → Prop} (h : Q (.ok ()) (g t) log) :
    Meets allowed (modify g : Routine ω ρ ε τ Unit) Q t log := h

theorem meets_call {op : ω} {value : ρ → Option β}
    (h : ∀ r, allowed (op, r) log ∧ ∀ b, value r = some b → Q (.ok b) t ((op, r) :: log)) :
    Meets allowed (Routine.call op value) Q t log := by
  intro r
  refine ⟨(h r).1, ?_⟩
  dsimp only
  cases hb : value r with
  | none => trivial
  | some b => exact (h r).2 b hb

theorem meets_ofOption {e : ε} {x : Option β} (hsome : ∀ b, x = some b → Q (.ok b) t log)
    (hnone : x = none → Q (.error e) t log) : Meets allowed (Routine.ofOption e x) Q t log := by
  cases x with
  | none => exact hnone rfl
  | some b => exact hsome b rfl

theorem meets_need {e : ε} {c : Prop} [Decidable c] {Q : Except ε Unit → τ → Trail ω ρ → Prop}
    (hpos : c → Q (.ok ()) t log) (hneg : ¬ c → Q (.error e) t log) :
    Meets allowed (Routine.need e c) Q t log := by
  unfold Routine.need
  split_ifs with hc
  · exact hpos hc
  · exact hneg hc

theorem meets_catch {x : Routine ω ρ ε τ β} {handler : ε → Routine ω ρ ε τ β}
    (h : Meets allowed x (fun r t log => match r with
      | .ok b => Q (.ok b) t log
      | .error e => Meets allowed (handler e) Q t log) t log) :
    Meets allowed (tryCatch x handler) Q t log := by
  refine follows_bind (Follows.mono h ?_)
  rintro ⟨r, t⟩ log hr
  cases r with
  | ok b => exact hr
  | error e => exact hr

theorem meets_finally {x : Routine ω ρ ε τ β} {f : Routine ω ρ ε τ Unit}
    (h : Meets allowed x (fun r t log => Meets allowed f (fun r' t log => match r' with
      | .ok _ => Q r t log
      | .error e => Q (.error e) t log) t log) t log) :
    Meets allowed (x.finally f) Q t log := by
  refine follows_bind (Follows.mono h ?_)
  rintro ⟨r, t⟩ log hr
  refine follows_bind (Follows.mono hr ?_)
  rintro ⟨r', t⟩ log hr'
  cases r' with
  | ok => exact hr'
  | error e => exact hr'

/-- A loop that keeps `P`, however it is left. -/
theorem meets_forM {γ : Type} {f : γ → Routine ω ρ ε τ Unit} {P : τ → Trail ω ρ → Prop} {xs : List γ}
    (hf : ∀ x ∈ xs, ∀ t log, P t log → Meets allowed (f x) (fun _ => P) t log) (h : P t log) :
    Meets allowed (forM xs f) (fun _ => P) t log := by
  induction xs generalizing t log with
  | nil => exact h
  | cons x xs ih =>
    rw [List.forM_cons]
    refine meets_bind ((hf x List.mem_cons_self t log h).mono fun r t log hP => ?_)
    cases r with
    | ok => exact ih (fun y hy => hf y (List.mem_cons_of_mem _ hy)) hP
    | error => exact hP

end Routines

section Growth

/-- A trail that has grown by calls of one kind. -/
def Grown (kind : ω → Bool) (log log' : Trail ω ρ) : Prop :=
  ∃ added, log' = added ++ log ∧ ∀ e ∈ added, kind e.1 = true

variable {kind : ω → Bool} {log log' log'' : Trail ω ρ}

theorem Grown.refl : Grown kind log log := ⟨[], rfl, by simp⟩

theorem Grown.trans (h : Grown kind log log') (h' : Grown kind log' log'') : Grown kind log log'' := by
  obtain ⟨added, rfl, hadded⟩ := h
  obtain ⟨added', rfl, hadded'⟩ := h'
  refine ⟨added' ++ added, by simp, fun e he => ?_⟩
  rcases List.mem_append.mp he with he | he
  · exact hadded' e he
  · exact hadded e he

theorem Grown.cons {e : ω × ρ} (h : Grown kind log log') (he : kind e.1 = true) :
    Grown kind log (e :: log') := h.trans ⟨[e], rfl, by simpa using he⟩

theorem Grown.weaken {kind' : ω → Bool} (h : Grown kind log log') (hkind : ∀ op, kind op = true → kind' op = true) :
    Grown kind' log log' := by
  obtain ⟨added, rfl, hadded⟩ := h
  exact ⟨added, rfl, fun e he => hkind _ (hadded e he)⟩

theorem Grown.mem (h : Grown kind log log') {e : ω × ρ} (he : e ∈ log) : e ∈ log' := by
  obtain ⟨added, rfl, -⟩ := h
  exact List.mem_append_right _ he

theorem Grown.mem_iff (h : Grown kind log log') {e : ω × ρ} (hkind : kind e.1 = false) : e ∈ log' ↔ e ∈ log := by
  obtain ⟨added, rfl, hadded⟩ := h
  refine ⟨fun he => (List.mem_append.mp he).resolve_left fun he => ?_, List.mem_append_right _⟩
  rw [hadded e he] at hkind
  cases hkind

variable {ε τ : Type} {allowed : ω × ρ → Trail ω ρ → Prop} {I : τ → Trail ω ρ → Prop} {t : τ}

/-- However a routine ends, it keeps `I` and has made only calls of one kind; its result meets `P`. -/
def Keeping (I : τ → Trail ω ρ → Prop) (kind : ω → Bool) (log : Trail ω ρ) (P : α → τ → Trail ω ρ → Prop) :
    Except ε α → τ → Trail ω ρ → Prop :=
  fun r t log' => I t log' ∧ Grown kind log log' ∧ ∀ a, r = .ok a → P a t log'

variable {P : α → τ → Trail ω ρ → Prop} {Q : β → τ → Trail ω ρ → Prop}

theorem keeping_pure {b : β} (hI : I t log) (hQ : Q b t log) :
    Meets allowed (pure b : Routine ω ρ ε τ β) (Keeping I kind log Q) t log :=
  ⟨hI, .refl, by rintro _ ⟨⟩; exact hQ⟩

theorem keeping_throw {e : ε} (hI : I t log) :
    Meets allowed (throw e : Routine ω ρ ε τ β) (Keeping I kind log Q) t log :=
  ⟨hI, .refl, by rintro _ ⟨⟩⟩

theorem keeping_bind {x : Routine ω ρ ε τ α} {f : α → Routine ω ρ ε τ β}
    (hx : Meets allowed x (Keeping I kind log P) t log)
    (hf : ∀ a t' log', I t' log' → Grown kind log log' → P a t' log' →
      Meets allowed (f a) (Keeping I kind log' Q) t' log') :
    Meets allowed (x >>= f) (Keeping I kind log Q) t log := by
  refine meets_bind (hx.mono fun r t' log' hr => ?_)
  obtain ⟨hI, hgrown, hP⟩ := hr
  cases r with
  | error e => exact ⟨hI, hgrown, by rintro _ ⟨⟩⟩
  | ok a => exact (hf a t' log' hI hgrown (hP a rfl)).mono fun r t log h => ⟨h.1, hgrown.trans h.2.1, h.2.2⟩

theorem keeping_get {f : τ → Routine ω ρ ε τ β} (h : Meets allowed (f t) (Keeping I kind log Q) t log) :
    Meets allowed (get >>= f) (Keeping I kind log Q) t log := h

theorem keeping_modify_bind {g : τ → τ} {f : Unit → Routine ω ρ ε τ β}
    (h : Meets allowed (f ()) (Keeping I kind log Q) (g t) log) :
    Meets allowed ((modify g : Routine ω ρ ε τ Unit) >>= f) (Keeping I kind log Q) t log := h

theorem keeping_ofOption {e : ε} {x : Option β} (hI : I t log) (hsome : ∀ b, x = some b → Q b t log) :
    Meets allowed (Routine.ofOption e x) (Keeping I kind log Q) t log := by
  refine meets_ofOption (fun b hb => ⟨hI, .refl, ?_⟩) fun _ => ⟨hI, .refl, by rintro _ ⟨⟩⟩
  rintro _ ⟨⟩
  exact hsome b hb

theorem keeping_ofOption_bind {e : ε} {x : Option α} {f : α → Routine ω ρ ε τ β} (hI : I t log)
    (h : ∀ a, x = some a → Meets allowed (f a) (Keeping I kind log Q) t log) :
    Meets allowed (Routine.ofOption e x >>= f) (Keeping I kind log Q) t log :=
  meets_bind (meets_ofOption h fun _ => ⟨hI, .refl, by rintro _ ⟨⟩⟩)

theorem keeping_need_bind {e : ε} {c : Prop} [Decidable c] {f : Unit → Routine ω ρ ε τ β} (hI : I t log)
    (h : c → Meets allowed (f ()) (Keeping I kind log Q) t log) :
    Meets allowed (Routine.need e c >>= f) (Keeping I kind log Q) t log :=
  meets_bind (meets_need h fun _ => ⟨hI, .refl, by rintro _ ⟨⟩⟩)

theorem keeping_call {op : ω} {value : ρ → Option β} (hallowed : ∀ r, allowed (op, r) log)
    (hI : ∀ r, I t ((op, r) :: log)) (hkind : kind op = true)
    (hQ : ∀ r b, value r = some b → Q b t ((op, r) :: log)) :
    Meets allowed (Routine.call op value) (Keeping I kind log Q : Except ε β → τ → Trail ω ρ → Prop) t log := by
  refine meets_call fun r => ⟨hallowed r, fun b hb => ⟨hI r, Grown.refl.cons hkind, ?_⟩⟩
  rintro _ ⟨⟩
  exact hQ r b hb

theorem Keeping.weaken {x : Routine ω ρ ε τ α} {kind' : ω → Bool} {P' : α → τ → Trail ω ρ → Prop}
    (h : Meets allowed x (Keeping I kind log P) t log) (hkind : ∀ op, kind op = true → kind' op = true)
    (himp : ∀ a t log', Grown kind log log' → P a t log' → P' a t log') :
    Meets allowed x (Keeping I kind' log P') t log :=
  h.mono fun _ t log' ⟨hI, hgrown, hP⟩ => ⟨hI, hgrown.weaken hkind, fun a ha => himp a t log' hgrown (hP a ha)⟩

/-- `finally` keeps what `x` was for, if `f` does. -/
theorem keeping_finally {x : Routine ω ρ ε τ β} {f : Routine ω ρ ε τ Unit} {Q : β → Trail ω ρ → Prop}
    (hx : Meets allowed x (Keeping I kind log fun b _ => Q b) t log)
    (hf : ∀ t' log', I t' log' → Meets allowed f (Keeping I kind log' fun _ _ _ => True) t' log')
    (hstable : ∀ b log log', Grown kind log log' → Q b log → Q b log') :
    Meets allowed (x.finally f) (Keeping I kind log fun b _ => Q b) t log := by
  refine meets_finally (hx.mono fun r t₁ log₁ ⟨hI, hgrown, hQ⟩ => (hf t₁ log₁ hI).mono ?_)
  rintro r' t₂ log₂ ⟨hI₂, hgrown₂, -⟩
  cases r' with
  | error e => exact ⟨hI₂, hgrown.trans hgrown₂, by rintro _ ⟨⟩⟩
  | ok => exact ⟨hI₂, hgrown.trans hgrown₂, fun b hb => hstable b _ _ hgrown₂ (hQ b hb)⟩

/-- A loop whose rounds each leave `P` of their element, which the later ones keep. -/
theorem keeping_forM {γ : Type} {f : γ → Routine ω ρ ε τ Unit} {P : γ → Trail ω ρ → Prop} {xs : List γ}
    (hstable : ∀ x log log', Grown kind log log' → P x log → P x log')
    (hf : ∀ x ∈ xs, ∀ t log', Grown kind log log' → I t log' →
      Meets allowed (f x) (Keeping I kind log' fun _ _ log => P x log) t log')
    (hI : I t log) :
    Meets allowed (forM xs f) (Keeping I kind log fun _ _ log => ∀ x ∈ xs, P x log) t log := by
  induction xs generalizing t log with
  | nil => exact keeping_pure hI (by simp)
  | cons x xs ih =>
    rw [List.forM_cons]
    refine keeping_bind (hf x List.mem_cons_self t log .refl hI) fun _ t' log' hI' hgrown hx => ?_
    have hxs := ih (fun y hy t log hlog => hf y (List.mem_cons_of_mem _ hy) t log (hgrown.trans hlog)) hI'
    refine Keeping.weaken hxs (fun _ h => h) fun _ t log hlog hrest y hy => ?_
    rcases List.mem_cons.mp hy with rfl | hy
    · exact hstable _ _ _ hlog hx
    · exact hrest y hy

end Growth

end Processes
