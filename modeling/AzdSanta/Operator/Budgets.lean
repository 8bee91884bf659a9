import AzdSanta.Operator.Replay

/-! Attempt budgets. Any number of processes call `_budget` on any keys; each evaluation
is one atomic operation whose request or reply may be lost. -/
namespace Operator
open Redis SecurityStore

/-- The arguments of `_budget`. Lua compares counts as doubles, which are exact on the
maxima that callers pass. -/
structure BudgetCall where
  key : Key
  maximum : ℕ
  seconds : ℕ := challengeSeconds
  exact : maximum < 2 ^ 53

/-- `_budget`. -/
def BudgetCall.script (storeId : Bytes) (c : BudgetCall) : Script Key Bool := do
  let count ← storeOperation storeId (budgetScript c.key c.seconds c.maximum)
  return decide (count ≤ c.maximum)

inductive Delivery where
  /-- The request never reached the store. -/
  | unsent
  /-- The evaluation took effect and its reply was lost. -/
  | unanswered
  | answered
  deriving DecidableEq

inductive BudgetAction where
  | call (c : BudgetCall) (delivery : Delivery)
  /-- A write to some key by whatever else uses the store. -/
  | write (key : Key) (entry : Option Entry)
  /-- `check_security_store`, or nothing at all. -/
  | read
  | advance (ms : ℕ)

def BudgetAction.step (storeId : Bytes) (s : Store Key) : BudgetAction → Store Key
  | .call _ .unsent => s
  | .call c _ => ((c.script storeId).run s).2
  | .write key entry => s.write key entry
  | .read => s
  | .advance ms => s.advance ms

/-- The store after `actions`, oldest first. -/
def budgetRun (storeId : Bytes) (s : Store Key) : List BudgetAction → Store Key
  | [] => s
  | action :: later => budgetRun storeId (action.step storeId s) later

/-- An action with the store it met. -/
structure BudgetEvent where
  before : Store Key
  action : BudgetAction

def budgetTrace (storeId : Bytes) (s : Store Key) : List BudgetAction → List BudgetEvent
  | [] => []
  | action :: later => ⟨s, action⟩ :: budgetTrace storeId (action.step storeId s) later

/-- A call on `k` within the lifetime that ends at `last`, of a maximum up to `most`, that
returned `True`. -/
def BudgetEvent.allowed (storeId : Bytes) (k : Key) (most last : ℕ) (e : BudgetEvent) : Bool :=
  match e.action with
  | .call c .answered =>
    c.key = k && c.maximum ≤ most && e.before.now ≤ last && ((c.script storeId).run e.before).1 = .ok true
  | _ => false

/-- An evaluation on `k` within that lifetime, of a maximum from `least` on, that took effect,
answered or not. -/
def BudgetEvent.evaluated (storeId : Bytes) (k : Key) (least last : ℕ) (e : BudgetEvent) : Bool :=
  match e.action with
  | .call _ .unsent => false
  | .call c _ =>
    c.key = k && least ≤ c.maximum && e.before.now ≤ last && ((c.script storeId).run e.before).1.isOk
  | _ => false

/-- Whoever else uses the store leaves `k` alone. -/
def BudgetAction.sparing (k : Key) : BudgetAction → Bool
  | .write key _ => key ≠ k
  | _ => true

/-- A counter: its decimal value and its last instant. -/
def budgetEntry (n : ℕ) (expireAt : Option ℕ) : Entry := ⟨.str (Nat.toDigits 10 n), expireAt⟩

/-- Everything an evaluation of `_budget` can do. -/
inductive BudgetOutcome (storeId : Bytes) (c : BudgetCall) (s : Store Key) :
    Except Error Bool × Store Key → Prop
  | refused (e : Error) : BudgetOutcome storeId c s (.error e, s)
  | created (hguard : storeGuard storeId s = .ok ()) (hfree : s.find c.key = none)
      (hseconds : c.seconds ≠ 0) : BudgetOutcome storeId c s
        (.ok (decide (1 ≤ c.maximum)),
          s.write c.key (some (budgetEntry 1 (some (s.now + c.seconds * 1000)))))
  | saturated (v : Bytes) (n : ℕ) (hguard : storeGuard storeId s = .ok ())
      (hget : s.get c.key = .ok (some v)) (hv : Lua.tonumber v = some n) (hpos : 1 ≤ n)
      (hfull : c.maximum ≤ n) : BudgetOutcome storeId c s (.ok false, s)
  | counted (n : ℕ) (e : Option ℕ) (hguard : storeGuard storeId s = .ok ())
      (hfind : s.find c.key = some (budgetEntry n e)) (hpos : 1 ≤ n) (hroom : n < c.maximum) :
      BudgetOutcome storeId c s (.ok true, s.write c.key (some (budgetEntry (n + 1) e)))

section Calls
variable {storeId : Bytes} {s : Store Key}

theorem BudgetCall.script_refused (c : BudgetCall) {e : Error}
    (h : (storeOperation storeId (budgetScript c.key c.seconds c.maximum)).run s = (.error e, s)) :
    (c.script storeId).run s = (.error e, s) := by
  rw [BudgetCall.script, Script.run_bind, h]

theorem BudgetCall.script_run (c : BudgetCall) (hguard : storeGuard storeId s = .ok ()) :
    (c.script storeId).run s = ((do
      let count ← budgetScript c.key c.seconds c.maximum
      return decide (count ≤ c.maximum) : Script Key Bool)).run s := by
  rcases storeOperation_run storeId (budgetScript c.key c.seconds c.maximum) s with
    ⟨e, hbad, -⟩ | ⟨-, hrun⟩
  · rw [hguard] at hbad
    cases hbad
  · rw [BudgetCall.script, Script.run_bind, Script.run_bind, hrun]

theorem BudgetCall.outcome (c : BudgetCall) : BudgetOutcome storeId c s ((c.script storeId).run s) := by
  rcases storeOperation_run storeId (budgetScript c.key c.seconds c.maximum) s with
    ⟨e, -, hrun⟩ | ⟨hguard, -⟩
  · rw [c.script_refused hrun]
    exact .refused e
  rw [c.script_run hguard, Script.run_bind, budgetScript, Script.run_query_bind]
  rcases hget : s.get c.key with e | _ | v
  · exact .refused e
  · by_cases hseconds : c.seconds = 0
    · simp only [Script.setEx, hseconds, if_true]
      exact .refused _
    · simp only [Script.setEx, if_neg hseconds]
      simpa using .created hguard (Store.get_eq_none hget) hseconds
  · dsimp only
    rcases hv : Lua.tonumber v with _ | n
    · exact .refused _
    dsimp only
    rw [Script.run_ite, Script.run_ite]
    split_ifs with hpos hfull
    · exact .refused _
    · have hreply : ¬ ((c.maximum : ℤ) + 1 ≤ c.maximum) := by omega
      simpa [hreply] using .saturated v n hguard hget hv (by omega) hfull
    · obtain ⟨e, hfind⟩ := Store.get_eq_some hget
      simp only [Script.run, Script.incr, hfind]
      rcases hi : Lua.integer? v with _ | i
      · exact .refused _
      obtain ⟨rfl, rfl⟩ := Lua.integer?_of_tonumber hv hi
      have hbig : (n : ℤ) ≠ 2 ^ 63 - 1 := by
        have := c.exact
        omega
      have hreply : ((n : ℤ) + 1 ≤ c.maximum) := by omega
      simp only [if_neg hbig]
      have hcounted := @BudgetOutcome.counted storeId _ _ n e hguard hfind (by omega)
        (by omega)
      have htext : Lua.integerText ((n : ℤ) + 1) = Nat.toDigits 10 (n + 1) := rfl
      simp only [hreply, htext, decide_true]
      exact hcounted

/-- A full counter answers `False` and stays as it is. -/
theorem BudgetCall.script_saturated (c : BudgetCall) (hguard : storeGuard storeId s = .ok ())
    {v : Bytes} {n : ℕ} (hget : s.get c.key = .ok (some v)) (hv : Lua.tonumber v = some n)
    (hpos : 1 ≤ n) (hfull : c.maximum ≤ n) : (c.script storeId).run s = (.ok false, s) := by
  have hreply : ¬ ((c.maximum : ℤ) + 1 ≤ c.maximum) := by omega
  rw [c.script_run hguard, Script.run_bind, budgetScript, Script.run_query_bind, hget]
  simp only [hv, if_neg (Nat.not_lt.mpr hpos), ge_iff_le, if_pos hfull, Script.run_pure, hreply,
    decide_false]

/-- What no budget is taken from: a store without its own ready marker, or a value that is
not a positive decimal number. -/
def Unfit (storeId : Bytes) (k : Key) (s : Store Key) : Prop :=
  (∀ marker ready, s.get .marker = .ok (some marker) → parseMarker marker = some (storeId, ready) →
    s.seconds < ready) ∨
  ∃ entry, s.find k = some entry ∧ ∀ v n, entry.value = .str v → Lua.tonumber v = some n → n < 1

variable {c : BudgetCall} {r : Except Error Bool × Store Key}

theorem BudgetOutcome.of_unfit (h : BudgetOutcome storeId c s r) (hunfit : Unfit storeId c.key s) :
    ∃ e, r = (.error e, s) := by
  have hguarded (hguard : storeGuard storeId s = .ok ()) : ∃ entry, s.find c.key = some entry ∧
      ∀ v n, entry.value = .str v → Lua.tonumber v = some n → n < 1 := by
    refine hunfit.resolve_left fun hmarker => ?_
    obtain ⟨marker, ready, hget, hparse, hready⟩ := storeGuard_eq_ok.mp hguard
    exact absurd (hmarker marker ready hget hparse) (Nat.not_lt.mpr hready)
  cases h with
  | refused e => exact ⟨e, rfl⟩
  | created hguard hfree =>
    obtain ⟨entry, hfind, -⟩ := hguarded hguard
    rw [hfree] at hfind
    cases hfind
  | saturated v n hguard hget hv hpos =>
    obtain ⟨entry, hfind, hbad⟩ := hguarded hguard
    obtain ⟨e, hentry⟩ := Store.get_eq_some hget
    obtain rfl := Option.some.inj (hfind.symm.trans hentry)
    exact absurd (hbad v n rfl hv) (Nat.not_lt.mpr hpos)
  | counted n e hguard hfind hpos =>
    obtain ⟨entry, hfind', hbad⟩ := hguarded hguard
    obtain rfl := Option.some.inj (hfind.symm.trans hfind')
    exact absurd (hbad _ n rfl (Lua.tonumber_toDigits n)) (Nat.not_lt.mpr hpos)

theorem BudgetOutcome.now_eq (h : BudgetOutcome storeId c s r) : r.2.now = s.now := by
  cases h <;> rfl

/-- Only the key of the call is written. -/
theorem BudgetOutcome.data_ne (h : BudgetOutcome storeId c s r) {k : Key} (hk : k ≠ c.key) :
    r.2.data k = s.data k := by
  cases h with
  | refused | saturated => rfl
  | created | counted => rw [Store.write_data, if_neg hk]

theorem BudgetOutcome.find_ne (h : BudgetOutcome storeId c s r) {k : Key} (hk : k ≠ c.key) :
    r.2.find k = s.find k := by
  rw [Store.find, Store.find, h.data_ne hk, h.now_eq]

/-- A live counter keeps its last instant. -/
theorem BudgetOutcome.expireAt_eq (h : BudgetOutcome storeId c s r) {k : Key} {entry : Entry}
    (hfind : s.find k = some entry) :
    ∃ entry', r.2.find k = some entry' ∧ entry'.expireAt = entry.expireAt := by
  by_cases hk : k = c.key
  · subst hk
    cases h with
    | refused | saturated => exact ⟨entry, hfind, rfl⟩
    | created _ hfree => simp [hfree] at hfind
    | counted n e _ hn =>
      obtain rfl := Option.some.inj (hn.symm.trans hfind)
      exact ⟨_, Store.write_find_self _ _ _ (Store.find_live hfind).2, rfl⟩
  · exact ⟨entry, (h.find_ne hk).trans hfind, rfl⟩

/-- A counter that stands at `n` is refused, full or counted up. -/
theorem BudgetOutcome.standing (h : BudgetOutcome storeId c s r) {n : ℕ} {e : Option ℕ}
    (hfind : s.find c.key = some (budgetEntry n e)) :
    (∃ e, r = (.error e, s)) ∨ (c.maximum ≤ n ∧ r = (.ok false, s)) ∨
      (n < c.maximum ∧ r = (.ok true, s.write c.key (some (budgetEntry (n + 1) e)))) := by
  cases h with
  | refused e => exact Or.inl ⟨e, rfl⟩
  | created _ hfree => simp [hfree] at hfind
  | saturated v m _ hget hv _ hfull =>
    have hv' : s.get c.key = .ok (some (Nat.toDigits 10 n)) := by simp [Store.get, hfind, budgetEntry]
    obtain rfl := Option.some.inj (Except.ok.inj (hget.symm.trans hv'))
    rw [Lua.tonumber_toDigits] at hv
    obtain rfl := Option.some.inj hv
    exact Or.inr (Or.inl ⟨hfull, rfl⟩)
  | counted m e' _ hm _ hroom =>
    have hentry := Option.some.inj (hm.symm.trans hfind)
    simp only [budgetEntry, Entry.mk.injEq, Value.str.injEq] at hentry
    obtain ⟨hdigits, rfl⟩ := hentry
    obtain rfl := Lua.toDigits_injective hdigits
    exact Or.inr (Or.inr ⟨hroom, rfl⟩)

end Calls

/-- Up to its last instant the counter stands at `n`. -/
def Standing (k : Key) (n last : ℕ) (s : Store Key) : Prop :=
  s.now ≤ last → s.find k = some (budgetEntry n (some last))

section Lifetimes
variable {storeId : Bytes} {k : Key} {n last : ℕ} {s : Store Key}

theorem BudgetOutcome.step_standing {c : BudgetCall} {r : Except Error Bool × Store Key}
    (h : BudgetOutcome storeId c s r) (hs : Standing k n last s) :
    ∃ m, n ≤ m ∧ Standing k m last r.2 ∧
      (c.key = k → s.now ≤ last → r.1 = .ok true → n < c.maximum ∧ n < m) ∧
      (c.key = k → s.now ≤ last → r.1.isOk = true → c.maximum ≤ n ∨ n < m) := by
  have hnow := h.now_eq
  by_cases hlife : s.now ≤ last
  · by_cases hkey : c.key = k
    · subst hkey
      rcases h.standing (hs hlife) with ⟨e, rfl⟩ | ⟨hfull, rfl⟩ | ⟨hroom, rfl⟩
      · exact ⟨n, le_rfl, hs, by simp, by simp [Except.isOk, Except.toBool]⟩
      · exact ⟨n, le_rfl, hs, by simp, fun _ _ _ => Or.inl hfull⟩
      · refine ⟨n + 1, Nat.le_succ n, fun _ => ?_, fun _ _ _ => ⟨hroom, Nat.lt_succ_self n⟩,
          fun _ _ _ => Or.inr (Nat.lt_succ_self n)⟩
        exact Store.write_find_self _ _ _ (decide_eq_true hlife)
    · refine ⟨n, le_rfl, fun _ => ?_, fun h => absurd h hkey, fun h => absurd h hkey⟩
      exact (h.find_ne (Ne.symm hkey)).trans (hs hlife)
  · refine ⟨n, le_rfl, fun hle => absurd (hnow ▸ hle) hlife, fun _ h => absurd h hlife,
      fun _ h => absurd h hlife⟩

/-- What one action does to a standing counter. -/
theorem BudgetAction.step_standing (hs : Standing k n last s) {action : BudgetAction}
    (hspare : action.sparing k = true) : ∃ m, n ≤ m ∧ Standing k m last (action.step storeId s) ∧
      (∀ most, BudgetEvent.allowed storeId k most last ⟨s, action⟩ = true → n < most ∧ n < m) ∧
      ∀ least, BudgetEvent.evaluated storeId k least last ⟨s, action⟩ = true → least ≤ n ∨ n < m := by
  cases action with
  | read => exact ⟨n, le_rfl, hs, by simp [BudgetEvent.allowed], by simp [BudgetEvent.evaluated]⟩
  | advance ms =>
    refine ⟨n, le_rfl, fun hnow => ?_, by simp [BudgetEvent.allowed], by simp [BudgetEvent.evaluated]⟩
    have hfind := hs ((Nat.le_add_right s.now ms).trans hnow)
    obtain ⟨hdata, -⟩ := Store.find_live hfind
    simp only [Store.find, Option.filter_eq_some_iff]
    exact ⟨hdata, decide_eq_true hnow⟩
  | write key entry =>
    have hkey : k ≠ key := by
      rintro rfl
      simp [BudgetAction.sparing] at hspare
    refine ⟨n, le_rfl, fun hnow => ?_, by simp [BudgetEvent.allowed], by simp [BudgetEvent.evaluated]⟩
    exact (Store.write_find_ne s entry hkey).trans (hs hnow)
  | call c delivery =>
    obtain ⟨m, hm, hstands, hallowed, hevaluated⟩ :=
      (@BudgetCall.outcome storeId s c).step_standing hs
    cases delivery with
    | unsent => exact ⟨n, le_rfl, hs, by simp [BudgetEvent.allowed], by simp [BudgetEvent.evaluated]⟩
    | unanswered =>
      refine ⟨m, hm, hstands, by simp [BudgetEvent.allowed], fun least h => ?_⟩
      simp only [BudgetEvent.evaluated, Bool.and_eq_true, decide_eq_true_eq] at h
      obtain ⟨⟨⟨hkey, hleast⟩, hlife⟩, hok⟩ := h
      exact (hevaluated hkey hlife hok).imp hleast.trans id
    | answered =>
      refine ⟨m, hm, hstands, fun most h => ?_, fun least h => ?_⟩
      · simp only [BudgetEvent.allowed, Bool.and_eq_true, decide_eq_true_eq] at h
        obtain ⟨⟨⟨hkey, hmost⟩, hlife⟩, htrue⟩ := h
        obtain ⟨hroom, hlt⟩ := hallowed hkey hlife htrue
        exact ⟨hroom.trans_le hmost, hlt⟩
      · simp only [BudgetEvent.evaluated, Bool.and_eq_true, decide_eq_true_eq] at h
        obtain ⟨⟨⟨hkey, hleast⟩, hlife⟩, hok⟩ := h
        exact (hevaluated hkey hlife hok).imp hleast.trans id

/-- A counter that stands at `n` lets at most the rest of the budget through. -/
theorem countP_allowed_le (hs : Standing k n last s) {actions : List BudgetAction}
    (hspare : ∀ a ∈ actions, a.sparing k = true) (most : ℕ) :
    (budgetTrace storeId s actions).countP (BudgetEvent.allowed storeId k most last) ≤ most - n := by
  induction actions generalizing s n with
  | nil => simp [budgetTrace]
  | cons action later ih =>
    obtain ⟨hhere, hlater⟩ := List.forall_mem_cons.mp hspare
    obtain ⟨m, hm, hstands, hallowed, -⟩ := @BudgetAction.step_standing storeId _ _ _ _ hs _ hhere
    have hrest := ih hstands hlater
    rw [budgetTrace, List.countP_cons]
    split_ifs with hcount
    · obtain ⟨hroom, hlt⟩ := hallowed most hcount
      omega
    · omega

/-- Every evaluation that takes effect brings the counter nearer to its maximum. -/
theorem standing_run (hs : Standing k n last s) {actions : List BudgetAction}
    (hspare : ∀ a ∈ actions, a.sparing k = true) (least : ℕ) :
    ∃ m, n ≤ m ∧ Standing k m last (budgetRun storeId s actions) ∧
      (least ≤ m ∨ n + (budgetTrace storeId s actions).countP
        (BudgetEvent.evaluated storeId k least last) ≤ m) := by
  induction actions generalizing s n with
  | nil => exact ⟨n, le_rfl, hs, Or.inr (by simp [budgetTrace])⟩
  | cons action later ih =>
    obtain ⟨hhere, hlater⟩ := List.forall_mem_cons.mp hspare
    obtain ⟨m, hm, hstands, -, hevaluated⟩ := @BudgetAction.step_standing storeId _ _ _ _ hs _ hhere
    obtain ⟨m', hm', hrun, hcount⟩ := ih hstands hlater
    refine ⟨m', hm.trans hm', hrun, ?_⟩
    rw [budgetTrace, List.countP_cons]
    split_ifs with htook
    · rcases hevaluated least htook with h | h <;> omega
    · omega

/-- The evaluation that opens a lifetime of the counter under `k`. -/
structure Opens (storeId : Bytes) (k : Key) (c : BudgetCall) (delivery : Delivery) (s : Store Key) :
    Prop where
  key : c.key = k
  sent : delivery ≠ .unsent
  absent : s.find k = none
  effective : ((c.script storeId).run s).1.isOk = true

theorem Opens.standing {c : BudgetCall} {delivery : Delivery} (h : Opens storeId k c delivery s) :
    Standing k 1 (s.now + c.seconds * 1000) ((BudgetAction.call c delivery).step storeId s) := by
  obtain ⟨rfl, hsent, habsent, heffective⟩ := h
  have hstep : (BudgetAction.call c delivery).step storeId s = ((c.script storeId).run s).2 := by
    cases delivery with
    | unsent => exact absurd rfl hsent
    | unanswered | answered => rfl
  rw [hstep]
  have houtcome := @BudgetCall.outcome storeId s c
  generalize (c.script storeId).run s = r at houtcome heffective
  cases houtcome with
  | refused e => cases heffective
  | created => exact fun hlife => Store.write_find_self _ _ _ (decide_eq_true hlife)
  | saturated v n _ hget =>
    obtain ⟨e, hfind⟩ := Store.get_eq_some hget
    simp [habsent] at hfind
  | counted n e _ hfind => simp [habsent] at hfind

/-- One lifetime, from its first call on, lets at most the budget through. -/
theorem Opens.countP_allowed_le {c : BudgetCall} {delivery : Delivery}
    (h : Opens storeId k c delivery s) {later : List BudgetAction}
    (hspare : ∀ a ∈ later, a.sparing k = true) (most : ℕ) :
    (budgetTrace storeId s (.call c delivery :: later)).countP
      (BudgetEvent.allowed storeId k most (s.now + c.seconds * 1000)) ≤ most := by
  have hrest := @Operator.countP_allowed_le storeId _ _ _ _ h.standing _ hspare most
  rw [budgetTrace, List.countP_cons]
  split_ifs with hfirst
  · -- The first call is allowed only where the budget holds one call at all.
    have hone : 1 ≤ most := by
      cases delivery with
      | unsent | unanswered => simp [BudgetEvent.allowed] at hfirst
      | answered =>
        simp only [BudgetEvent.allowed, Bool.and_eq_true, decide_eq_true_eq] at hfirst
        obtain ⟨⟨⟨-, hmost⟩, -⟩, htrue⟩ := hfirst
        have houtcome := @BudgetCall.outcome storeId s c
        generalize (c.script storeId).run s = r at houtcome htrue
        cases houtcome with
        | refused | saturated => cases htrue
        | created => exact (of_decide_eq_true (Except.ok.inj htrue)).trans hmost
        | counted n e _ _ hpos hroom => omega
    omega
  · omega

/-- Once the budget was spent within a lifetime, the rest of it is refused. -/
theorem Opens.spent {c : BudgetCall} {delivery : Delivery} (h : Opens storeId k c delivery s)
    {later : List BudgetAction} (hspare : ∀ a ∈ later, a.sparing k = true) {next : BudgetCall}
    (hkey : next.key = k)
    (hspent : next.maximum ≤ (budgetTrace storeId s (.call c delivery :: later)).countP
      (BudgetEvent.evaluated storeId k next.maximum (s.now + c.seconds * 1000)))
    (hlife : (budgetRun storeId s (.call c delivery :: later)).now ≤ s.now + c.seconds * 1000)
    (hguard : storeGuard storeId (budgetRun storeId s (.call c delivery :: later)) = .ok ()) :
    (next.script storeId).run (budgetRun storeId s (.call c delivery :: later)) =
      (.ok false, budgetRun storeId s (.call c delivery :: later)) := by
  obtain ⟨m, hm, hstands, hcount⟩ := @standing_run storeId _ _ _ _ h.standing _ hspare next.maximum
  have hfull : next.maximum ≤ m := by
    rw [budgetTrace, List.countP_cons] at hspent
    split_ifs at hspent <;> omega
  have hfind := hstands hlife
  subst hkey
  refine next.script_saturated hguard (v := Nat.toDigits 10 m) ?_ (Lua.tonumber_toDigits m) hm hfull
  rw [Store.get, budgetRun, hfind, budgetEntry]

end Lifetimes
end Operator
