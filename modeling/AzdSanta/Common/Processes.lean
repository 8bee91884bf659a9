import Mathlib.Data.List.Basic
import Mathlib.Logic.Relation
import Mathlib.Tactic

/-! Programs that share a state, in any interleaving, each of which can stop at any of its calls. -/
namespace Processes

/-- A program returns, gives up, or makes a call and goes on with the reply. -/
inductive Prog (ω ρ α : Type) where
  | ret (a : α)
  | fail
  | call (op : ω) (next : ρ → Prog ω ρ α)

section Prog
variable {ω ρ α β : Type}

def Prog.bind : Prog ω ρ α → (α → Prog ω ρ β) → Prog ω ρ β
  | .ret a, f => f a
  | .fail, _ => .fail
  | .call op next, f => .call op fun r => (next r).bind f

instance : Monad (Prog ω ρ) where
  pure := .ret
  bind := Prog.bind

def need (c : Prop) [Decidable c] : Prog ω ρ Unit := if c then .ret () else .fail

def ofOption : Option α → Prog ω ρ α
  | some a => .ret a
  | none => .fail

/-- A call whose reply has to be of one kind. -/
def invoke (op : ω) (value : ρ → Option α) : Prog ω ρ α := .call op fun r => ofOption (value r)

/-- Writes until nothing is left; one `write` can take a part and says how much it took. -/
def writeAll (write : List β → Prog ω ρ ℕ) : ℕ → List β → Prog ω ρ Unit
  | _, [] => .ret ()
  | 0, _ => .fail
  | fuel + 1, rest => do
    let count ← write rest
    writeAll write fuel (rest.drop count)

end Prog

section Logs
variable {η : Type} {allowed : η → List η → Prop} {log : List η}

/-- Each entry of a log, the last one in front, is allowed by those before it. -/
def Lawful (allowed : η → List η → Prop) : List η → Prop
  | [] => True
  | e :: log => allowed e log ∧ Lawful allowed log

theorem Lawful.entry {later earlier : List η} {e : η} (h : Lawful allowed (later ++ e :: earlier)) :
    allowed e earlier := by
  induction later with
  | nil => exact h.1
  | cons _ _ ih => exact ih h.2

theorem Lawful.suffix {later earlier : List η} {e : η} (h : Lawful allowed (later ++ e :: earlier)) :
    Lawful allowed earlier := by
  induction later with
  | nil => exact h.2
  | cons _ _ ih => exact ih h.2

theorem Lawful.mono {allowed' : η → List η → Prop} (h : Lawful allowed log)
    (himp : ∀ e log, allowed e log → allowed' e log) : Lawful allowed' log := by
  induction log with
  | nil => trivial
  | cons e log ih => exact ⟨himp e log h.1, ih h.2⟩

/-- Each entry is allowed after entries that were allowed themselves. -/
theorem Lawful.strong (h : Lawful allowed log) : Lawful (fun e log => allowed e log ∧ Lawful allowed log) log := by
  induction log with
  | nil => trivial
  | cons e log ih => exact ⟨h, ih h.2⟩

theorem Lawful.of_mem (h : Lawful allowed log) {e : η} (he : e ∈ log) :
    ∃ earlier, earlier <:+ log ∧ allowed e earlier := by
  obtain ⟨later, earlier, rfl⟩ := List.append_of_mem he
  exact ⟨earlier, ⟨later ++ [e], by simp⟩, h.entry⟩

/-- What is only allowed the first time happens once. -/
theorem Lawful.count_le_one {P : η → Bool} (h : Lawful allowed log)
    (hP : ∀ e log, allowed e log → P e = true → ∀ e' ∈ log, P e' = false) : log.countP P ≤ 1 := by
  induction log with
  | nil => simp
  | cons e log ih =>
    by_cases he : P e = true
    · have hnone : log.countP P = 0 := by
        rw [List.countP_eq_zero]
        intro e' he'
        simp [hP e log h.1 he e' he']
      simp [he, hnone]
    · rw [List.countP_cons_of_neg he]
      exact ih h.2

end Logs

/-- Programs, one for each way to start a process, and what their calls do.
`effect n k op r s` is the state after process `n`, started as `k`, was given the reply `r` to `op`;
it is `none` where that reply cannot be given. `disturb` is what no process does. -/
structure System (ω ρ κ ε σ : Type) where
  program : κ → Prog ω ρ Unit
  effect : ℕ → κ → ω → ρ → σ → Option σ
  disturb : ε → σ → Option σ

/-- The shared state and what each process has still to do. -/
structure Config (ω ρ κ σ : Type) where
  state : σ
  processes : List (κ × Prog ω ρ Unit)

inductive Action (ρ κ ε : Type) where
  | start (k : κ)
  | reply (n : ℕ) (r : ρ)
  | crash (n : ℕ)
  | disturb (e : ε)

variable {ω ρ κ ε σ : Type}

/-- An action that is not possible is skipped. -/
def System.step (S : System ω ρ κ ε σ) (c : Config ω ρ κ σ) : Action ρ κ ε → Config ω ρ κ σ
  | .start k => { c with processes := c.processes ++ [(k, S.program k)] }
  | .reply n r =>
    match c.processes[n]? with
    | some (k, .call op next) =>
      match S.effect n k op r c.state with
      | some s => ⟨s, c.processes.set n (k, next r)⟩
      | none => c
    | _ => c
  | .crash n =>
    match c.processes[n]? with
    | some (k, _) => { c with processes := c.processes.set n (k, .fail) }
    | none => c
  | .disturb e =>
    match S.disturb e c.state with
    | some s => { c with state := s }
    | none => c

def System.after (S : System ω ρ κ ε σ) (s : σ) (actions : List (Action ρ κ ε)) : Config ω ρ κ σ :=
  actions.foldl S.step ⟨s, []⟩

/-- What holds throughout, and what each process may do to the state. -/
structure Contract (σ : Type) where
  inv : σ → Prop
  own : ℕ → σ → σ → Prop

variable {S : System ω ρ κ ε σ} {C : Contract σ} {n : ℕ} {k : κ} {α β : Type}

/-- A change that process `n` does not make itself. -/
structure Rely (S : System ω ρ κ ε σ) (C : Contract σ) (n : ℕ) (s s' : σ) : Prop where
  before : C.inv s
  after : C.inv s'
  other : (∃ e, S.disturb e s = some s') ∨ ∃ m, m ≠ n ∧ C.own m s s'

/-- The program keeps to the contract from `s` on, whatever the others do in between, and if it
returns, `Q` holds. -/
def Keeps (S : System ω ρ κ ε σ) (C : Contract σ) (n : ℕ) (k : κ) :
    Prog ω ρ α → (α → σ → Prop) → σ → Prop
  | .ret a, Q, s => Q a s
  | .fail, _, _ => True
  | .call op next, Q, s => ∀ s', Relation.ReflTransGen (Rely S C n) s s' → C.inv s' → ∀ r s'',
      S.effect n k op r s' = some s'' → C.own n s' s'' ∧ C.inv s'' ∧ Keeps S C n k (next r) Q s''

/-- The others do not end `P`. -/
def Stable (S : System ω ρ κ ε σ) (C : Contract σ) (n : ℕ) (P : σ → Prop) : Prop :=
  ∀ ⦃s s'⦄, P s → Rely S C n s s' → P s'

section Rules
variable {s : σ} {Q : β → σ → Prop}

@[simp]
theorem keeps_pure {a : β} : Keeps S C n k (pure a) Q s ↔ Q a s := Iff.rfl

theorem keeps_fail : Keeps S C n k (.fail : Prog ω ρ β) Q s := trivial

theorem keeps_bind {p : Prog ω ρ α} {f : α → Prog ω ρ β}
    (h : Keeps S C n k p (fun a => Keeps S C n k (f a) Q) s) : Keeps S C n k (p >>= f) Q s := by
  induction p generalizing s with
  | ret a => exact h
  | fail => trivial
  | call op next ih =>
    intro s' hs hinv r s'' heffect
    obtain ⟨hown, hinv', hnext⟩ := h s' hs hinv r s'' heffect
    exact ⟨hown, hinv', ih r hnext⟩

theorem Keeps.mono {p : Prog ω ρ β} {Q' : β → σ → Prop} (h : Keeps S C n k p Q s)
    (himp : ∀ a s, Q a s → Q' a s) : Keeps S C n k p Q' s := by
  induction p generalizing s with
  | ret a => exact himp a s h
  | fail => trivial
  | call op next ih =>
    intro s' hs hinv r s'' heffect
    obtain ⟨hown, hinv', hnext⟩ := h s' hs hinv r s'' heffect
    exact ⟨hown, hinv', ih r hnext⟩

theorem keeps_need {c : Prop} [Decidable c] {Q : Unit → σ → Prop} (h : c → Q () s) :
    Keeps S C n k (need c) Q s := by
  unfold need
  split_ifs with hc
  · exact h hc
  · trivial

theorem keeps_ofOption {x : Option β} (h : ∀ a, x = some a → Q a s) :
    Keeps S C n k (ofOption x) Q s := by
  cases x with
  | none => trivial
  | some a => exact h a rfl

/-- Every part that is written keeps `P` about what has been written and what is left. -/
theorem keeps_writeAll {γ : Type} {write : List γ → Prog ω ρ ℕ} {P : List γ → List γ → σ → Prop}
    (hwrite : ∀ done rest s, rest ≠ [] → P done rest s →
      Keeps S C n k (write rest) (fun count s => P (done ++ rest.take count) (rest.drop count) s) s)
    {fuel : ℕ} {done rest : List γ} (h : P done rest s) :
    Keeps S C n k (writeAll write fuel rest) (fun _ s => P (done ++ rest) [] s) s := by
  induction fuel generalizing done rest s with
  | zero =>
    cases rest with
    | nil => simpa [writeAll, Keeps] using h
    | cons => trivial
  | succ fuel ih =>
    cases hrest : rest with
    | nil =>
      rw [hrest] at h
      simpa [writeAll, Keeps] using h
    | cons first others =>
      rw [← hrest]
      have hcall := hwrite done rest s (by simp [hrest]) h
      have hall : Keeps S C n k (write rest >>= fun count => writeAll write fuel (rest.drop count))
          (fun _ s => P (done ++ rest) [] s) s := by
        refine keeps_bind (hcall.mono fun count s hs => ?_)
        have hparts := @ih s (done ++ rest.take count) (rest.drop count) hs
        rwa [List.append_assoc, List.take_append_drop] at hparts
      rw [hrest] at hall ⊢
      exact hall

theorem Stable.reflTransGen {P : σ → Prop} (hP : Stable S C n P) {s' : σ} (h : P s)
    (hs : Relation.ReflTransGen (Rely S C n) s s') : P s' := by
  induction hs with
  | refl => exact h
  | tail _ hstep ih => exact hP ih hstep

/-- The rule for a call: what is known before it has to be stable. -/
theorem keeps_call {P : σ → Prop} {op : ω} {next : ρ → Prog ω ρ β} (hP : Stable S C n P) (h : P s)
    (hcall : ∀ s, P s → C.inv s → ∀ r s', S.effect n k op r s = some s' →
      C.own n s s' ∧ C.inv s' ∧ Keeps S C n k (next r) Q s') :
    Keeps S C n k (.call op next) Q s :=
  fun s' hs hinv r s'' heffect => hcall s' (hP.reflTransGen h hs) hinv r s'' heffect

theorem keeps_invoke {P : σ → Prop} {op : ω} {value : ρ → Option β} (hP : Stable S C n P) (h : P s)
    (hcall : ∀ s, P s → C.inv s → ∀ r s', S.effect n k op r s = some s' →
      C.own n s s' ∧ C.inv s' ∧ ∀ a, value r = some a → Q a s') :
    Keeps S C n k (invoke op value) Q s := by
  refine keeps_call hP h fun s hs hinv r s' heffect => ?_
  obtain ⟨hown, hinv', hQ⟩ := hcall s hs hinv r s' heffect
  exact ⟨hown, hinv', keeps_ofOption hQ⟩

theorem Keeps.rely {p : Prog ω ρ Unit} {s' : σ} (h : Keeps S C n k p (fun _ _ => True) s)
    (hs : Relation.ReflTransGen (Rely S C n) s s') : Keeps S C n k p (fun _ _ => True) s' := by
  cases p with
  | ret a => trivial
  | fail => trivial
  | call op next => exact fun s'' hs' => h s'' (hs.trans hs')

theorem Stable.and {P P' : σ → Prop} (hP : Stable S C n P) (hP' : Stable S C n P') :
    Stable S C n fun s => P s ∧ P' s :=
  fun _ _ h hs => ⟨hP h.1 hs, hP' h.2 hs⟩

theorem stable_const (p : Prop) : Stable S C n fun _ => p := fun _ _ h _ => h

end Rules

/-- What makes every run keep to the contract. `fresh n` is what process `n` starts from. -/
structure Sound (S : System ω ρ κ ε σ) (C : Contract σ) (fresh : ℕ → σ → Prop) (start : σ) : Prop where
  start_inv : C.inv start
  start_fresh : ∀ n, fresh n start
  disturb_inv : ∀ e s s', C.inv s → S.disturb e s = some s' → C.inv s'
  fresh_stable : ∀ n, Stable S C n (fresh n)
  program : ∀ n k s, fresh n s → C.inv s → Keeps S C n k (S.program k) (fun _ _ => True) s

/-- The invariant of a run. -/
structure Config.Good (S : System ω ρ κ ε σ) (C : Contract σ) (fresh : ℕ → σ → Prop)
    (c : Config ω ρ κ σ) : Prop where
  inv : C.inv c.state
  fresh : ∀ n, c.processes.length ≤ n → fresh n c.state
  keeps : ∀ n k p, c.processes[n]? = some (k, p) → Keeps S C n k p (fun _ _ => True) c.state

section Runs
variable {fresh : ℕ → σ → Prop} {start : σ} {c : Config ω ρ κ σ}

/-- One process goes on, and the others can rely on what it does to the state. -/
theorem Config.Good.replace (hS : Sound S C fresh start) (h : c.Good S C fresh) {s : σ} (hinv : C.inv s)
    {n : ℕ} (hn : n < c.processes.length)
    (hother : ∀ m, m ≠ n → Relation.ReflTransGen (Rely S C m) c.state s) {k : κ} {p : Prog ω ρ Unit}
    (hp : Keeps S C n k p (fun _ _ => True) s) :
    (Config.mk s (c.processes.set n (k, p))).Good S C fresh where
  inv := hinv
  fresh := by
    intro m hm
    rw [List.length_set] at hm
    exact (hS.fresh_stable m).reflTransGen (h.fresh m hm) (hother m (by omega))
  keeps := by
    intro m k' p' hm
    rcases eq_or_ne m n with rfl | hne
    · rw [List.getElem?_set_self hn] at hm
      obtain ⟨rfl, rfl⟩ := Prod.mk.inj (Option.some.inj hm)
      exact hp
    · rw [List.getElem?_set_ne hne.symm] at hm
      exact (h.keeps m k' p' hm).rely (hother m hne)

theorem Config.Good.step (hS : Sound S C fresh start) (h : c.Good S C fresh) (action : Action ρ κ ε) :
    (S.step c action).Good S C fresh := by
  cases action with
  | start k =>
    refine ⟨h.inv, fun n hn => h.fresh n (le_trans (by simp [System.step]) hn), fun n k' p hp => ?_⟩
    rcases lt_or_ge n c.processes.length with hn | hn
    · exact h.keeps n k' p (by simpa [System.step, List.getElem?_append_left hn] using hp)
    · simp only [System.step, List.getElem?_append_right hn] at hp
      obtain ⟨rfl, rfl⟩ := Prod.mk.inj (List.mem_singleton.mp (List.mem_of_getElem? hp))
      exact hS.program n k' c.state (h.fresh n hn) h.inv
  | reply n r =>
    rw [System.step]
    split
    · next k op next hn =>
      split
      · next s heffect =>
        obtain ⟨hown, hinv, hnext⟩ := h.keeps n k _ hn _ .refl h.inv r s heffect
        refine h.replace hS hinv (List.getElem?_eq_some_iff.mp hn).1 (fun m hm => ?_) hnext
        exact .single ⟨h.inv, hinv, Or.inr ⟨n, hm.symm, hown⟩⟩
      · exact h
    · exact h
  | crash n =>
    rw [System.step]
    split
    · next k p hn =>
      exact h.replace hS h.inv (List.getElem?_eq_some_iff.mp hn).1 (fun _ _ => .refl) trivial
    · exact h
  | disturb e =>
    rw [System.step]
    split
    · next s hs =>
      have hinv : C.inv s := hS.disturb_inv e c.state s h.inv hs
      have hrely (n : ℕ) : Rely S C n c.state s := ⟨h.inv, hinv, Or.inl ⟨e, hs⟩⟩
      exact ⟨hinv, fun n hn => hS.fresh_stable n (h.fresh n hn) (hrely n),
        fun n k p hp => (h.keeps n k p hp).rely (.single (hrely n))⟩
    · exact h

theorem System.after_good (hS : Sound S C fresh start) (actions : List (Action ρ κ ε)) :
    (S.after start actions).Good S C fresh := by
  have hrun (actions : List (Action ρ κ ε)) (c : Config ω ρ κ σ) (h : c.Good S C fresh) :
      (actions.foldl S.step c).Good S C fresh := by
    induction actions generalizing c with
    | nil => exact h
    | cons action actions ih => exact ih _ (h.step hS action)
  exact hrun actions _ ⟨hS.start_inv, fun n _ => hS.start_fresh n, fun n k p hp => by simp at hp⟩

end Runs

end Processes
