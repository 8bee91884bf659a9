import AzdSanta.Common.Checks

/-! A database with one writer at a time. A call checks its arguments, takes the write lock and
runs its statements on a working copy, which the commit publishes; it can fail or be aborted at
any point before. -/
namespace Transactions
open Checks

inductive Outcome (ε : Type) where
  | accepted
  | rejected (e : ε)
  | aborted

section Model
variable {τ ε κ : Type}

/-- A transaction that has begun. -/
structure Transaction (τ ε κ : Type) where
  call : κ
  working : τ
  rest : List (τ → Except ε τ)

structure Database (τ ε κ : Type) where
  tables : τ
  /-- The connection that holds the write lock. -/
  writer : Option (ℕ × Transaction τ ε κ)
  /-- Calls with accepted arguments that have not begun their transaction. -/
  waiting : ℕ → Option (κ × List (τ → Except ε τ))
  /-- The calls that have ended, newest first. -/
  outcomes : List (κ × Outcome ε)

inductive Action (ε κ : Type) where
  | call (connection : ℕ) (k : κ)
  | start (connection : ℕ)
  /-- The lock is not given in time. -/
  | busy (connection : ℕ) (e : ε)
  | execute (connection : ℕ)
  | commit (connection : ℕ)
  | abort (connection : ℕ)

def Database.initial (tables : τ) : Database τ ε κ := ⟨tables, none, fun _ => none, []⟩

def Database.finish (σ : Database τ ε κ) (k : κ) (o : Outcome ε) : Database τ ε κ :=
  { σ with outcomes := (k, o) :: σ.outcomes }

def Database.setWaiting (σ : Database τ ε κ) (c : ℕ) (w : Option (κ × List (τ → Except ε τ))) :
    Database τ ε κ :=
  { σ with waiting := Function.update σ.waiting c w }

/-- A connection works on one call at a time. -/
def Database.idle (σ : Database τ ε κ) (c : ℕ) : Bool :=
  (σ.waiting c).isNone && (match σ.writer with | some (w, _) => w ≠ c | none => true)

/-- One step; `body` is the argument check of a call with the statements of its transaction. -/
def Database.step (body : κ → Except ε (List (τ → Except ε τ))) (σ : Database τ ε κ) :
    Action ε κ → Database τ ε κ
  | .call c k =>
    if σ.idle c then
      match body k with
      | .ok statements => σ.setWaiting c (some (k, statements))
      | .error e => σ.finish k (.rejected e)
    else σ
  | .start c =>
    match σ.waiting c, σ.writer with
    | some (k, statements), none =>
      { σ.setWaiting c none with writer := some (c, ⟨k, σ.tables, statements⟩) }
    | _, _ => σ
  | .busy c e =>
    match σ.waiting c with
    | some (k, _) => (σ.setWaiting c none).finish k (.rejected e)
    | none => σ
  | .execute c =>
    match σ.writer with
    | some (w, t) =>
      if w = c then
        match t.rest with
        | statement :: rest =>
          match statement t.working with
          | .ok working => { σ with writer := some (c, { t with working := working, rest := rest }) }
          | .error e => { σ with writer := none }.finish t.call (.rejected e)
        | [] => σ
      else σ
    | none => σ
  | .commit c =>
    match σ.writer with
    | some (w, t) =>
      if w = c ∧ t.rest.isEmpty then
        { σ with tables := t.working, writer := none }.finish t.call .accepted
      else σ
    | none => σ
  | .abort c =>
    match σ.waiting c, σ.writer with
    | some (k, _), _ => (σ.setWaiting c none).finish k .aborted
    | none, some (w, t) => if w = c then { σ with writer := none }.finish t.call .aborted else σ
    | none, none => σ

/-- The state after `actions`, newest first. -/
def Database.after (body : κ → Except ε (List (τ → Except ε τ))) (start : Database τ ε κ) :
    List (Action ε κ) → Database τ ε κ
  | [] => start
  | action :: earlier => (Database.after body start earlier).step body action

/-- The statements one after another. -/
def runAll : List (τ → Except ε τ) → τ → Except ε τ
  | [], t => .ok t
  | statement :: rest, t => statement t >>= runAll rest

/-- A call on its own, without other connections. -/
def serial (body : κ → Except ε (List (τ → Except ε τ))) (k : κ) (t : τ) : Except ε τ :=
  body k >>= fun statements => runAll statements t

/-- Calls one after another, newest first. -/
def replay (body : κ → Except ε (List (τ → Except ε τ))) (start : τ) : List κ → Except ε τ
  | [] => .ok start
  | k :: earlier => replay body start earlier >>= serial body k

/-- The accepted calls, newest first. -/
def Database.accepted (σ : Database τ ε κ) : List κ :=
  σ.outcomes.filterMap fun
    | (k, .accepted) => some k
    | _ => none

end Model

section Serial
variable {τ ε κ : Type} {body : κ → Except ε (List (τ → Except ε τ))} {σ : Database τ ε κ}

theorem runAll_append (xs ys : List (τ → Except ε τ)) (t : τ) :
    runAll (xs ++ ys) t = runAll xs t >>= runAll ys := by
  induction xs generalizing t with
  | nil => rfl
  | cons statement rest ih =>
    simp only [List.cons_append, runAll]
    cases statement t with
    | error e => rfl
    | ok t => exact ih t

/-- Waiting calls keep their statements; the writer has run the first of its statements on the
tables as they still are. -/
structure Database.Serial (body : κ → Except ε (List (τ → Except ε τ))) (σ : Database τ ε κ) :
    Prop where
  waiting : ∀ c k statements, σ.waiting c = some (k, statements) → body k = .ok statements
  writer : ∀ c t, σ.writer = some (c, t) → ∃ done, body t.call = .ok (done ++ t.rest) ∧
    runAll done σ.tables = .ok t.working

/-- What a step does to tables and outcomes. -/
inductive Effect (body : κ → Except ε (List (τ → Except ε τ))) (σ τ' : Database τ ε κ) :
    Action ε κ → Prop
  | quiet {action : Action ε κ} (htables : τ'.tables = σ.tables) (houtcomes : τ'.outcomes = σ.outcomes) :
      Effect body σ τ' action
  | refused {action : Action ε κ} {k : κ} {o : Outcome ε} (ho : o ≠ .accepted)
      (htables : τ'.tables = σ.tables) (houtcomes : τ'.outcomes = (k, o) :: σ.outcomes) :
      Effect body σ τ' action
  | commits {c : ℕ} {k : κ} (hserial : serial body k σ.tables = .ok τ'.tables)
      (houtcomes : τ'.outcomes = (k, .accepted) :: σ.outcomes) : Effect body σ τ' (.commit c)

theorem Database.Serial.quiet (h : σ.Serial body) (action : Action ε κ) :
    σ.Serial body ∧ Effect body σ σ action :=
  ⟨h, .quiet rfl rfl⟩

/-- A connection stops waiting. -/
theorem Database.Serial.unwait (h : σ.Serial body) (c : ℕ) (outcomes : List (κ × Outcome ε)) :
    { σ.setWaiting c none with outcomes := outcomes }.Serial body := by
  refine ⟨fun c' k statements hw => ?_, h.writer⟩
  by_cases hc : c' = c
  · subst hc
    simp [setWaiting] at hw
  · simp only [setWaiting, Function.update_of_ne hc] at hw
    exact h.waiting c' k statements hw

/-- The write lock is given back. -/
theorem Database.Serial.release (h : σ.Serial body) (tables : τ) (outcomes : List (κ × Outcome ε)) :
    { σ with tables := tables, writer := none, outcomes := outcomes }.Serial body :=
  ⟨h.waiting, by simp⟩

/-- Whoever commits has run all its statements on the tables as they are. -/
theorem Database.Serial.step (h : σ.Serial body) (action : Action ε κ) :
    (σ.step body action).Serial body ∧ Effect body σ (σ.step body action) action := by
  cases action with
  | call c k =>
    simp only [Database.step]
    split
    · cases hbody : body k with
      | error e => exact ⟨⟨h.waiting, h.writer⟩, .refused (by simp) rfl rfl⟩
      | ok statements =>
        refine ⟨⟨fun c' k' statements' hw => ?_, h.writer⟩, .quiet rfl rfl⟩
        by_cases hc : c' = c
        · subst hc
          simp only [setWaiting, Function.update_self, Option.some.injEq, Prod.mk.injEq] at hw
          rw [← hw.1, ← hw.2, hbody]
        · simp only [setWaiting, Function.update_of_ne hc] at hw
          exact h.waiting c' k' statements' hw
    · exact h.quiet _
  | start c =>
    simp only [Database.step]
    split
    · next k statements hwaiting hfree =>
      refine ⟨⟨(h.unwait c σ.outcomes).waiting, fun c' t ht => ?_⟩, .quiet rfl rfl⟩
      obtain ⟨rfl, rfl⟩ := Prod.mk.inj (Option.some.inj ht)
      exact ⟨[], h.waiting c k statements hwaiting, rfl⟩
    · exact h.quiet _
  | busy c e =>
    simp only [Database.step]
    split
    · exact ⟨h.unwait c _, .refused (by simp) rfl rfl⟩
    · exact h.quiet _
  | execute c =>
    simp only [Database.step]
    split
    · next w t hwriter =>
      split_ifs with hc
      · obtain ⟨done, hdone, hrun⟩ := h.writer w t hwriter
        split
        · next statement rest hrest =>
          split
          · next working hresult =>
            refine ⟨⟨h.waiting, fun c' t' ht => ?_⟩, .quiet rfl rfl⟩
            obtain ⟨rfl, rfl⟩ := Prod.mk.inj (Option.some.inj ht)
            refine ⟨done ++ [statement], by simpa [hrest] using hdone, ?_⟩
            simp [runAll_append, hrun, runAll, hresult]
          · exact ⟨h.release _ _, .refused (by simp) rfl rfl⟩
        · exact h.quiet _
      · exact h.quiet _
    · exact h.quiet _
  | commit c =>
    simp only [Database.step]
    split
    · next w t hwriter =>
      split_ifs with hc
      · obtain ⟨done, hdone, hrun⟩ := h.writer w t hwriter
        rw [List.isEmpty_iff.mp hc.2, List.append_nil] at hdone
        refine ⟨h.release _ _, .commits ?_ rfl⟩
        simpa [serial, hdone, finish] using hrun
      · exact h.quiet _
    · exact h.quiet _
  | abort c =>
    simp only [Database.step]
    split
    · exact ⟨h.unwait c _, .refused (by simp) rfl rfl⟩
    · split_ifs
      · exact ⟨h.release _ _, .refused (by simp) rfl rfl⟩
      · exact h.quiet _
    · exact h.quiet _

theorem Database.after_serial (tables : τ) (actions : List (Action ε κ)) :
    (Database.after body (.initial tables) actions).Serial body := by
  induction actions with
  | nil => exact ⟨by simp [after, initial], by simp [after, initial]⟩
  | cons action earlier ih => exact (ih.step action).1

/-- The tables are those of the accepted calls, one after another in the order of their commits. -/
theorem Database.after_replay (tables : τ) (actions : List (Action ε κ)) :
    replay body tables (Database.after body (.initial tables) actions).accepted =
      .ok (Database.after body (.initial tables) actions).tables := by
  induction actions with
  | nil => rfl
  | cons action earlier ih =>
    simp only [after, accepted] at ih ⊢
    cases ((Database.after_serial tables earlier).step action).2 with
    | quiet htables houtcomes => rwa [htables, houtcomes]
    | @refused _ k o ho htables houtcomes =>
      rw [htables, houtcomes, List.filterMap_cons_none]
      · exact ih
      · cases o <;> first | rfl | exact absurd rfl ho
    | @commits c k hserial houtcomes =>
      rw [houtcomes]
      simp only [List.filterMap_cons, replay, ih, ok_bind]
      exact hserial

/-- Tables change in the commits of accepted calls only. -/
theorem Database.step_tables (tables : τ) (actions : List (Action ε κ)) (action : Action ε κ) :
    let σ := Database.after body (.initial tables) actions
    (σ.step body action).tables = σ.tables ∨ ∃ c k, action = .commit c ∧
      (σ.step body action).outcomes = (k, .accepted) :: σ.outcomes ∧
      serial body k σ.tables = .ok (σ.step body action).tables := by
  intro σ
  cases ((Database.after_serial tables actions).step action).2 with
  | quiet htables | refused _ htables => exact Or.inl htables
  | commits hserial houtcomes => exact Or.inr ⟨_, _, rfl, houtcomes, hserial⟩

/-- Rule for an invariant of the tables. -/
theorem Database.after_invariant {P : τ → Prop} {tables : τ} (hinit : P tables)
    (hcall : ∀ k t t', P t → serial body k t = .ok t' → P t') (actions : List (Action ε κ)) :
    P (Database.after body (.initial tables) actions).tables := by
  induction actions with
  | nil => exact hinit
  | cons action earlier ih =>
    rcases Database.step_tables tables earlier action with hsame | ⟨c, k, -, -, hserial⟩
    · rw [after, hsame]
      exact ih
    · exact hcall k _ _ ih hserial

/-- Rule for a preorder between the tables at two moments. -/
theorem Database.after_related {R : τ → τ → Prop} {P : τ → Prop} {tables : τ} (hinit : P tables)
    (hcall : ∀ k t t', P t → serial body k t = .ok t' → P t') (hrefl : ∀ t, R t t)
    (htrans : ∀ t t' t'', R t t' → R t' t'' → R t t'')
    (hstep : ∀ k t t', P t → serial body k t = .ok t' → R t t')
    (later earlier : List (Action ε κ)) :
    R (Database.after body (.initial tables) earlier).tables
      (Database.after body (.initial tables) (later ++ earlier)).tables := by
  induction later with
  | nil => exact hrefl _
  | cons action rest ih =>
    rw [List.cons_append, after]
    rcases Database.step_tables tables (rest ++ earlier) action with hsame | ⟨c, k, -, -, hserial⟩
    · rw [hsame]
      exact ih
    · exact htrans _ _ _ ih (hstep k _ _ (Database.after_invariant hinit hcall _) hserial)

end Serial
end Transactions
