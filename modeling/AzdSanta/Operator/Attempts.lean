import AzdSanta.Operator.Budgets
import AzdSanta.Operator.Gate
import AzdSanta.Python.Values
import Mathlib.Data.List.DropRight

/-! The attempt budgets of `RequireOperatorMFA`: verification POSTs are paid from the budget
of their user, password POSTs from the budget of their identity. Sessions that are signed
in meet the gate instead, which looks at no budget. -/
namespace Operator
open Redis SecurityStore

inductive Door where
  /-- One of `VERIFY`. -/
  | verify
  | login
  /-- Any other view, as the gate tells them apart. -/
  | gate (view : View)
  deriving DecidableEq

/-- The gate has no special case for the two sign-in views. -/
def Door.view : Door → View
  | .verify | .login => .other
  | .gate view => view

structure Visit where
  door : Door
  post : Bool
  /-- `request.POST.get('username', '')`. -/
  username : List Char
  /-- `request.session['verification_token']`. -/
  verificationToken : Option Bytes
  session : Session
  /-- `request.user` when it is authenticated. -/
  signedIn : Option Account

/-- What a visit reads outside the security store. -/
structure Surroundings where
  issued : Bytes → Option Signed
  accounts : ℕ → Option Account
  /-- The reply to `check_security_store`. -/
  storeReady : Bool

/-- `get(pk=k)`. -/
def Surroundings.account (around : Surroundings) (k : ℕ) : Option Account :=
  (around.accounts k).map fun u => { u with pk := k }

/-- `str(username).strip().lower()[:256]`, where `lower` is `str.lower`. -/
def normalized (lower : List Char → List Char) (username : List Char) : List Char :=
  let space (c : Char) : Bool := Python.isSpace c.toNat
  (lower ((username.dropWhile space).rdropWhile space)).take 256

/-- The user that `_challenge` finds behind the verification token; `none` is `_login`. -/
def challengeUser (p : Primitives) (now : ℕ) (around : Surroundings) (v : Visit) : Option Account := do
  let token ← v.verificationToken
  let data ← loads around.issued now token
  let user ← around.account data.userId
  if !isLocal user || data.authBackend ≠ localBackend || data.azdNonce.length ≠ 43 ||
      !Lua.matchAll Lua.urlsafe data.azdNonce || data.azdAuthHash ≠ user.sessionAuthHash ||
      (factors p user.devices).isEmpty then none
  else some user

/-- The user a verification token was signed for. -/
def Visit.tokenUser (now : ℕ) (around : Surroundings) (v : Visit) : Option ℕ :=
  (v.verificationToken.bind (loads around.issued now)).map Signed.userId

/-- `_budget('verify:' + str(user.pk), 5)`. -/
def verifyBudget (user : ℕ) : BudgetCall where
  key := .verify (Nat.toDigits 10 user)
  maximum := 5
  exact := by decide

/-- `_budget('password:' + _digest(identity), 10)`. -/
def passwordBudget (p : Primitives) (identity : List Char) : BudgetCall where
  key := .password (p.digest (.str identity))
  maximum := 10
  exact := by decide

/-- What `__call__` comes to before any budget is looked at. -/
inductive Course where
  | respond (status : ℕ)
  | spend (c : BudgetCall)
  /-- `get_response`. -/
  | view

/-- `__call__` for a visitor who is not signed in. -/
def Visit.visitor (p : Primitives) (lower : List Char → List Char) (now : ℕ) (around : Surroundings)
    (v : Visit) : Course :=
  if (v.door = .verify ∨ (v.door = .login ∧ v.post)) ∧ !around.storeReady then .respond 503
  else
    match v.door with
    | .gate .realmsPublic => .respond 403
    | .verify =>
      match challengeUser p now around v with
      | none => .respond 302
      | some user => if v.post then .spend (verifyBudget user.pk) else .view
    | .login => if v.post then .spend (passwordBudget p (normalized lower v.username)) else .view
    | .gate _ => .view

def Verdict.course : Verdict → Course
  | .respond status _ => .respond status
  | .handler _ _ => .view

/-- `__call__` for a session of `user`. -/
def Visit.signed (p : Primitives) (now : ℕ) (around : Surroundings) (v : Visit) (user : Account) :
    Course :=
  match earlyVerdict v.door.view around.storeReady v.session user with
  | some verdict => verdict.course
  | none => (decision p now v.door.view v.post v.session user).course

/-- `__call__` up to its budget or its view. -/
def Visit.course (p : Primitives) (lower : List Char → List Char) (now : ℕ) (around : Surroundings)
    (v : Visit) : Course :=
  match v.signedIn with
  | some user => v.signed p now around user
  | none => v.visitor p lower now around

/-- A signed-in session that the gate lets through to one of the two sign-in views: no budget
is asked for its POST. -/
def Visit.unpaid (p : Primitives) (now : ℕ) (around : Surroundings) (v : Visit) : Bool :=
  match v.signedIn with
  | some user =>
    v.post && (v.door = .verify || v.door = .login) &&
      (v.signed p now around user matches .view)
  | none => false

/-- The response once the budget answered; `none` when the view is called. -/
def Course.status (storeId : Bytes) (delivery : Delivery) (s : Store Key) : Course → Option ℕ
  | .respond status => some status
  | .view => none
  | .spend c =>
    match delivery, ((c.script storeId).run s).1 with
    | .answered, .ok true => none
    | .answered, .ok false => some 429
    | _, _ => some 503

inductive VisitAction where
  | visit (v : Visit) (around : Surroundings) (delivery : Delivery)
  | write (key : Key) (entry : Option Entry)
  | advance (ms : ℕ)

section Visits
variable (p : Primitives) (lower : List Char → List Char) (storeId : Bytes)

/-- What an action asks of the store. -/
def VisitAction.budget (s : Store Key) : VisitAction → BudgetAction
  | .visit v around delivery =>
    match v.course p lower s.now around with
    | .spend c => .call c delivery
    | _ => .read
  | .write key entry => .write key entry
  | .advance ms => .advance ms

/-- The store actions of a run of visits. -/
def visitBudgets (s : Store Key) : List VisitAction → List BudgetAction
  | [] => []
  | action :: later =>
    let asked := action.budget p lower s
    asked :: visitBudgets (asked.step storeId s) later

/-- The store after `actions`, oldest first. -/
def visitRun (s : Store Key) : List VisitAction → Store Key
  | [] => s
  | action :: later => visitRun ((action.budget p lower s).step storeId s) later

structure VisitEvent where
  before : Store Key
  action : VisitAction

def visitTrace (s : Store Key) : List VisitAction → List VisitEvent
  | [] => []
  | action :: later => ⟨s, action⟩ :: visitTrace ((action.budget p lower s).step storeId s) later

/-- A verification POST that reached its view within a lifetime, for the user of its token. -/
def VisitEvent.verified (user last : ℕ) (e : VisitEvent) : Bool :=
  match e.action with
  | .visit v around delivery =>
    v.door = .verify && v.post && v.tokenUser e.before.now around = some user && e.before.now ≤ last &&
      ((v.course p lower e.before.now around).status storeId delivery e.before).isNone
  | _ => false

/-- A password POST for `identity` that reached its view within a lifetime. -/
def VisitEvent.tried (identity : List Char) (last : ℕ) (e : VisitEvent) : Bool :=
  match e.action with
  | .visit v around delivery =>
    v.door = .login && v.post && normalized lower v.username = identity && e.before.now ≤ last &&
      ((v.course p lower e.before.now around).status storeId delivery e.before).isNone
  | _ => false

/-- A visit of this kind skips its budget. -/
def VisitEvent.unpaid (e : VisitEvent) : Bool :=
  match e.action with
  | .visit v around _ => v.unpaid p e.before.now around
  | _ => false

def VisitAction.sparing (k : Key) : VisitAction → Bool
  | .write key _ => key ≠ k
  | _ => true

end Visits

section Passing
variable {p : Primitives} {lower : List Char → List Char} {storeId : Bytes}

theorem Course.spend_passes {c : BudgetCall} {delivery : Delivery} {s : Store Key}
    (h : ((Course.spend c).status storeId delivery s).isNone = true) :
    delivery = .answered ∧ ((c.script storeId).run s).1 = .ok true := by
  simp only [Course.status] at h
  split at h
  · next heq => exact ⟨rfl, heq⟩
  · cases h
  · cases h

theorem challengeUser_pk {now : ℕ} {around : Surroundings} {v : Visit} {u : Account}
    (h : challengeUser p now around v = some u) : v.tokenUser now around = some u.pk := by
  simp only [challengeUser, Option.bind_eq_bind, Option.bind_eq_some_iff] at h
  obtain ⟨token, htoken, data, hdata, user, huser, h⟩ := h
  split_ifs at h
  obtain rfl := Option.some.inj h
  obtain ⟨account, -, rfl⟩ := Option.map_eq_some_iff.mp huser
  simp [Visit.tokenUser, htoken, hdata]

/-- The gate answers itself or calls the view; it spends nothing. -/
theorem Visit.signed_cases (now : ℕ) (around : Surroundings) (v : Visit) (user : Account) :
    v.signed p now around user = .view ∨ ∃ n, v.signed p now around user = .respond n := by
  have hverdict (verdict : Verdict) : verdict.course = .view ∨ ∃ n, verdict.course = .respond n := by
    cases verdict with
    | respond n flush => exact Or.inr ⟨n, rfl⟩
    | handler => exact Or.inl rfl
  unfold Visit.signed
  split
  · exact hverdict _
  · exact hverdict _

/-- A session whose POST to a sign-in view is not let through by the gate is answered there. -/
theorem signed_of_paid {now : ℕ} {around : Surroundings} {v : Visit} {user : Account}
    (hdoor : v.door = .verify ∨ v.door = .login) (hpost : v.post = true)
    (huser : v.signedIn = some user) (hpaid : v.unpaid p now around = false) :
    ∃ n, v.course p lower now around = .respond n := by
  rcases v.signed_cases (p := p) now around user with hview | ⟨n, hrespond⟩
  · rcases hdoor with hdoor | hdoor <;> simp [Visit.unpaid, huser, hpost, hdoor, hview] at hpaid
  · exact ⟨n, by simp only [Visit.course, huser, hrespond]⟩

theorem verify_course {now user : ℕ} {around : Surroundings} {v : Visit} (hdoor : v.door = .verify)
    (hpost : v.post = true) (huser : v.tokenUser now around = some user)
    (hpaid : v.unpaid p now around = false) :
    v.course p lower now around = .spend (verifyBudget user) ∨
      ∃ n, v.course p lower now around = .respond n := by
  rcases hsigned : v.signedIn with _ | account
  · simp only [Visit.course, hsigned, Visit.visitor, hdoor, hpost]
    split
    · exact Or.inr ⟨503, rfl⟩
    · rcases hchallenge : challengeUser p now around v with _ | u
      · exact Or.inr ⟨302, rfl⟩
      · obtain rfl := Option.some.inj (huser.symm.trans (challengeUser_pk hchallenge))
        exact Or.inl rfl
  · exact Or.inr (signed_of_paid (Or.inl hdoor) hpost hsigned hpaid)

theorem login_course {now : ℕ} {around : Surroundings} {v : Visit} (hdoor : v.door = .login)
    (hpost : v.post = true) (hpaid : v.unpaid p now around = false) :
    v.course p lower now around = .spend (passwordBudget p (normalized lower v.username)) ∨
      ∃ n, v.course p lower now around = .respond n := by
  rcases hsigned : v.signedIn with _ | account
  · simp only [Visit.course, hsigned, Visit.visitor, hdoor, hpost]
    split
    · exact Or.inr ⟨503, rfl⟩
    · exact Or.inl rfl
  · exact Or.inr (signed_of_paid (Or.inr hdoor) hpost hsigned hpaid)

/-- Whoever reaches a paid view was let through by its budget. -/
theorem allowed_of_passes {c : BudgetCall} {v : Visit} {around : Surroundings} {delivery : Delivery}
    {s : Store Key} {last : ℕ} (hlife : s.now ≤ last)
    (hcourse : v.course p lower s.now around = .spend c ∨ ∃ n, v.course p lower s.now around = .respond n)
    (hpass : ((v.course p lower s.now around).status storeId delivery s).isNone = true) :
    BudgetEvent.allowed storeId c.key c.maximum last
      ⟨s, (VisitAction.visit v around delivery).budget p lower s⟩ = true := by
  rcases hcourse with hspend | ⟨n, hrespond⟩
  · rw [hspend] at hpass
    obtain ⟨rfl, htrue⟩ := Course.spend_passes hpass
    simp [VisitAction.budget, hspend, BudgetEvent.allowed, hlife, htrue]
  · rw [hrespond] at hpass
    cases hpass

theorem VisitEvent.verified_allowed {user last : ℕ} {e : VisitEvent} (hpaid : e.unpaid p = false)
    (h : e.verified p lower storeId user last = true) :
    BudgetEvent.allowed storeId (verifyBudget user).key 5 last
      ⟨e.before, e.action.budget p lower e.before⟩ = true := by
  obtain ⟨s, action⟩ := e
  cases action with
  | write | advance => cases h
  | visit v around delivery =>
    simp only [VisitEvent.verified, Bool.and_eq_true, decide_eq_true_eq] at h
    obtain ⟨⟨⟨⟨hdoor, hpost⟩, huser⟩, hlife⟩, hpass⟩ := h
    exact allowed_of_passes hlife (verify_course hdoor hpost huser hpaid) hpass

theorem VisitEvent.tried_allowed {identity : List Char} {last : ℕ} {e : VisitEvent}
    (hpaid : e.unpaid p = false) (h : e.tried p lower storeId identity last = true) :
    BudgetEvent.allowed storeId (passwordBudget p identity).key 10 last
      ⟨e.before, e.action.budget p lower e.before⟩ = true := by
  obtain ⟨s, action⟩ := e
  cases action with
  | write | advance => cases h
  | visit v around delivery =>
    simp only [VisitEvent.tried, Bool.and_eq_true, decide_eq_true_eq] at h
    obtain ⟨⟨⟨⟨hdoor, hpost⟩, rfl⟩, hlife⟩, hpass⟩ := h
    exact allowed_of_passes hlife (login_course hdoor hpost hpaid) hpass

/-- Passes are counted by the calls behind them. -/
theorem countP_passes_le {k : Key} {most last : ℕ} {passes : VisitEvent → Bool} {s : Store Key}
    {actions : List VisitAction}
    (h : ∀ e ∈ visitTrace p lower storeId s actions, passes e = true →
      BudgetEvent.allowed storeId k most last ⟨e.before, e.action.budget p lower e.before⟩ = true) :
    (visitTrace p lower storeId s actions).countP passes ≤
      (budgetTrace storeId s (visitBudgets p lower storeId s actions)).countP
        (BudgetEvent.allowed storeId k most last) := by
  induction actions generalizing s with
  | nil => simp [visitTrace, visitBudgets, budgetTrace]
  | cons action later ih =>
    obtain ⟨hhere, hlater⟩ := List.forall_mem_cons.mp h
    have hrest := ih hlater
    simp only [visitTrace, visitBudgets, budgetTrace, List.countP_cons]
    by_cases hp : passes ⟨s, action⟩ = true
    · rw [if_pos hp, if_pos (hhere hp)]
      omega
    · rw [if_neg hp]
      omega

theorem visitBudgets_sparing {k : Key} {actions : List VisitAction} {s : Store Key}
    (h : ∀ a ∈ actions, a.sparing k = true) :
    ∀ a ∈ visitBudgets p lower storeId s actions, a.sparing k = true := by
  induction actions generalizing s with
  | nil => simp [visitBudgets]
  | cons action later ih =>
    obtain ⟨hhere, hlater⟩ := List.forall_mem_cons.mp h
    refine List.forall_mem_cons.mpr ⟨?_, ih hlater⟩
    cases action with
    | write key entry => exact hhere
    | advance ms => rfl
    | visit v around delivery =>
      simp only [VisitAction.budget]
      split <;> rfl

end Passing

/-- Every call spares other keys, lifetimes and full counters and refuses an unfit store; every
lifetime of a counter lets its maximum through and no more. The two sign-in views keep to
their budgets as long as no session that is signed in posts to them past the gate. -/
theorem attempt_budgets (p : Primitives) (lower : List Char → List Char) (storeId : Bytes) :
    (∀ (c : BudgetCall) (s : Store Key),
      (∀ k, k ≠ c.key → ((c.script storeId).run s).2.data k = s.data k) ∧
      (∀ k entry, s.find k = some entry → ∃ entry', ((c.script storeId).run s).2.find k = some entry' ∧
        entry'.expireAt = entry.expireAt) ∧
      (∀ v n, storeGuard storeId s = .ok () → s.get c.key = .ok (some v) → Lua.tonumber v = some n →
        1 ≤ n → c.maximum ≤ n → (c.script storeId).run s = (.ok false, s)) ∧
      (Unfit storeId c.key s → ∃ e, (c.script storeId).run s = (.error e, s))) ∧
    (∀ (start : Store Key) (earlier later : List BudgetAction) (c : BudgetCall) (delivery : Delivery)
        (k : Key),
      let s := budgetRun storeId start earlier
      let actions := .call c delivery :: later
      let last := s.now + c.seconds * 1000
      Opens storeId k c delivery s → (∀ a ∈ later, a.sparing k = true) →
      (∀ most, (budgetTrace storeId s actions).countP (BudgetEvent.allowed storeId k most last) ≤ most) ∧
      ∀ next : BudgetCall, next.key = k →
        next.maximum ≤ (budgetTrace storeId s actions).countP
          (BudgetEvent.evaluated storeId k next.maximum last) →
        (budgetRun storeId s actions).now ≤ last →
        storeGuard storeId (budgetRun storeId s actions) = .ok () →
        (next.script storeId).run (budgetRun storeId s actions) =
          (.ok false, budgetRun storeId s actions)) ∧
    (∀ (start : Store Key) (earlier later : List VisitAction) (first : VisitAction) (c : BudgetCall)
        (delivery : Delivery) (k : Key),
      let s := visitRun p lower storeId start earlier
      let visits := visitTrace p lower storeId s (first :: later)
      let last := s.now + c.seconds * 1000
      first.budget p lower s = .call c delivery → Opens storeId k c delivery s →
      (∀ a ∈ later, a.sparing k = true) → (∀ e ∈ visits, e.unpaid p = false) →
      (∀ user, k = (verifyBudget user).key →
        visits.countP (VisitEvent.verified p lower storeId user last) ≤ 5) ∧
      ∀ identity, k = (passwordBudget p identity).key →
        visits.countP (VisitEvent.tried p lower storeId identity last) ≤ 10) := by
  refine ⟨?_, ?_, ?_⟩
  · intro c s
    have houtcome : BudgetOutcome storeId c s ((c.script storeId).run s) := c.outcome
    refine ⟨fun k hk => houtcome.data_ne hk, fun k entry hfind => houtcome.expireAt_eq hfind, ?_,
      houtcome.of_unfit⟩
    intro v n hguard hget hv hpos hfull
    exact c.script_saturated hguard hget hv hpos hfull
  · intro start earlier later c delivery k s actions last hopens hspare
    refine ⟨hopens.countP_allowed_le hspare, ?_⟩
    intro next hkey hspent hlife hguard
    exact hopens.spent hspare hkey hspent hlife hguard
  · intro start earlier later first c delivery k s visits last hfirst hopens hspare hpaid
    have hbudget (most : ℕ) : (budgetTrace storeId s (visitBudgets p lower storeId s
        (first :: later))).countP (BudgetEvent.allowed storeId k most last) ≤ most := by
      simp only [visitBudgets, hfirst]
      exact hopens.countP_allowed_le (visitBudgets_sparing hspare) most
    refine ⟨?_, ?_⟩
    · rintro user rfl
      refine (countP_passes_le fun e he hp => ?_).trans (hbudget 5)
      exact VisitEvent.verified_allowed (hpaid e he) hp
    · rintro identity rfl
      refine (countP_passes_le fun e he hp => ?_).trans (hbudget 10)
      exact VisitEvent.tried_allowed (hpaid e he) hp

/-- A store with a ready marker and nothing else. -/
def readyStore : Store Key :=
  (Store.empty 5000).write .marker (some ⟨.str (markerText "0a".toList 0), none⟩)

def readySurroundings : Surroundings := ⟨fun _ => none, fun _ => none, true⟩

/-- A password POST for `bob` from outside. -/
def strangerVisit : Visit := ⟨.login, true, "bob".toList, none, .empty, none⟩

/-- The same POST from a session of another operator that passed MFA. -/
def operatorVisit : Visit :=
  ⟨.login, true, "bob".toList, none,
    ⟨some 1, some localBackend, some ⟨⟨1, "h".toList⟩, 5000, factorsDigest samplePrimitives
      (factors samplePrimitives sampleAccount.devices)⟩, none, none, true⟩, some sampleAccount⟩

/-- One password POST from outside opens the counter of `bob`, and ten more for `bob` pass from
a signed-in session within the same five minutes. -/
theorem attempt_budgets_signed_in :
    let c := passwordBudget samplePrimitives "bob".toList
    let visits := .visit strangerVisit readySurroundings .answered ::
      List.replicate 10 (.visit operatorVisit readySurroundings .answered)
    Opens "0a".toList c.key c .answered readyStore ∧
    (∀ a ∈ visits, a.sparing c.key = true) ∧
    10 < (visitTrace samplePrimitives id "0a".toList readyStore visits).countP
      (VisitEvent.tried samplePrimitives id "0a".toList "bob".toList (5000 + c.seconds * 1000)) := by
  refine ⟨⟨rfl, by decide, rfl, rfl⟩, ?_, ?_⟩
  · simp [VisitAction.sparing]
  · decide +kernel

end Operator
