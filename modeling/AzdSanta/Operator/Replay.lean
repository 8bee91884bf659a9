import AzdSanta.Common.Unique
import AzdSanta.Operator.Store

/-! Concurrent `prepare_mfa` calls on one security store. Store claims are messages that
are evaluated at most once, in time or never, and possibly after their sender gave up. -/
namespace Operator
open Redis SecurityStore Unique

/-- The payload of a verification token, with the whole second it was signed in. -/
structure Signed where
  timestamp : ℕ
  userId : ℕ
  authBackend : Bytes
  azdAuthHash : Bytes
  azdNonce : Bytes

inductive AttemptPhase where
  | claimingChallenge
  | claimingStep
  | returned
  | rejected
  deriving DecidableEq

/-- A `prepare_mfa` call that sent its challenge claim. A claim carries the clock reading
it rests on. -/
structure Attempt where
  token : Bytes
  device : Device
  code : Option Bytes
  phase : AttemptPhase
  challenge : Flight ℕ Bool
  step : Option ℤ
  stepMsg : Flight ℕ Bool

/-- `signing.loads(..., max_age=CHALLENGE_SECONDS)`: only tokens that were signed verify. -/
def loads (issued : Bytes → Option Signed) (now : ℕ) (token : Bytes) : Option Signed :=
  (issued token).filter fun d => now ≤ d.timestamp * 1000 + challengeSeconds * 1000

/-- The test of the loaded payload against the account read afresh. -/
def challengeValid (u : Account) (d : Signed) : Bool :=
  d.userId = u.pk && d.authBackend = localBackend && d.azdAuthHash = u.sessionAuthHash &&
    d.azdNonce.length = 43 && Lua.matchAll Lua.urlsafe d.azdNonce

/-- `prepare_mfa` up to its first store operation; `none` is `PermissionDenied`. -/
def prepareMfa (p : Primitives) (issued : Bytes → Option Signed) (now : ℕ) (freshUser : Account)
    (backend : Option Bytes) (device : Option Device) (code : Option Bytes) (token : Bytes) :
    Option Attempt :=
  match device with
  | none => none
  | some device =>
    if !isLocal freshUser || backend ≠ some localBackend then none
    else if !hasFactor p freshUser.devices device then none
    else
      match loads issued now token with
      | none => none
      | some d =>
        if challengeValid freshUser d then
          some ⟨token, device, code, .claimingChallenge, .sent now, none, .unsent⟩
        else none

/-- The first of the current and the previous time step whose code was submitted. -/
def matchStep (p : Primitives) (secret : Bytes) (code : Option Bytes) (now : ℕ) : Option ℤ :=
  let counter : ℤ := (now / 1000 / 30 : ℕ)
  [counter, counter - 1].find? fun c => code = some (p.totpAt secret c)

/-- `prepare_mfa` after the reply to its challenge claim. -/
def Attempt.challengeReply (p : Primitives) (now : ℕ) (a : Attempt) : Attempt :=
  match a.phase, a.challenge with
  | .claimingChallenge, .replied (.ok true) =>
    match a.device with
    | .totp _ secret =>
      match matchStep p secret a.code now with
      | some c => { a with phase := .claimingStep, step := some c, stepMsg := .sent now }
      | none => { a with phase := .rejected }
    | .webauthn .. => { a with phase := .returned }
  | .claimingChallenge, .replied _ => { a with phase := .rejected }
  | _, _ => a

/-- `prepare_mfa` after the reply to its time step claim. -/
def Attempt.stepReply (a : Attempt) : Attempt :=
  match a.phase, a.stepMsg with
  | .claimingStep, .replied (.ok true) => { a with phase := .returned }
  | .claimingStep, .replied _ => { a with phase := .rejected }
  | _, _ => a

/-- A store error, a timeout or the death of the process. -/
def Attempt.giveUp (a : Attempt) : Attempt :=
  match a.phase with
  | .claimingChallenge | .claimingStep => { a with phase := .rejected }
  | _ => a

def challengeKey (p : Primitives) (token : Bytes) : Key := .challengeUsed (p.digest (.str token))

def stepKey (p : Primitives) (device : Device) (step : ℤ) : Key := .totpUsed (material p device) step

/-- The longest time from a clock or age check to the effect of the claim, exclusive. -/
def claimMargin : ℕ := 60000

/-- One store, its clock shared with every process, and the calls so far. -/
structure World where
  store : Store Key
  issued : Bytes → Option Signed
  attempts : List Attempt

inductive Action where
  | sign (token : Bytes) (userId : ℕ) (authBackend azdAuthHash azdNonce : Bytes)
  | prepare (freshUser : Account) (backend : Option Bytes) (device : Option Device)
      (code : Option Bytes) (token : Bytes)
  | evalChallenge (attempt : ℕ)
  | challengeReply (attempt : ℕ)
  | evalStep (attempt : ℕ)
  | stepReply (attempt : ℕ)
  | giveUp (attempt : ℕ)
  | budget (key : Key) (maximum : ℕ)
  | check
  | migrate (confirmQuiesced : Bool)
  /-- Whatever the admission middleware does to its own keys. -/
  | admission (data : Key → Option Entry)
  | advance (ms : ℕ)

/-- The keys of `_budget`. -/
def budgetKey : Key → Bool
  | .verify _ | .password _ => true
  | _ => false

/-- The keys of `_cache_add`. -/
def claimKey : Key → Bool
  | .challengeUsed _ | .totpUsed _ _ => true
  | _ => false

def admissionKey : Key → Bool
  | .admissionState | .syncGlobal | .syncSource _ | .syncCredential _ => true
  | _ => false

def World.update (σ : World) (i : ℕ) (f : Attempt → Attempt) : World :=
  match σ.attempts[i]? with
  | some a => { σ with attempts := σ.attempts.set i (f a) }
  | none => σ

/-- One step; an action that is not enabled changes nothing. -/
def World.step (p : Primitives) (site : Admission.Site) (σ : World) : Action → World
  | .sign token userId authBackend azdAuthHash azdNonce =>
    if (σ.issued token).isNone then
      let signed : Signed := ⟨σ.store.seconds, userId, authBackend, azdAuthHash, azdNonce⟩
      { σ with issued := Function.update σ.issued token (some signed) }
    else σ
  | .prepare freshUser backend device code token =>
    match prepareMfa p σ.issued σ.store.now freshUser backend device code token with
    | some a => { σ with attempts := σ.attempts ++ [a] }
    | none => σ
  | .evalChallenge i =>
    match σ.attempts[i]? with
    | some ⟨token, device, code, phase, .sent checked, step, stepMsg⟩ =>
      if σ.store.now < checked + claimMargin then
        let r := (cacheAdd site.storeId (challengeKey p token) (challengeSeconds + 60)).run σ.store
        { σ with
          store := r.2
          attempts := σ.attempts.set i ⟨token, device, code, phase, .replied r.1, step, stepMsg⟩ }
      else σ
    | _ => σ
  | .challengeReply i => σ.update i (Attempt.challengeReply p σ.store.now)
  | .evalStep i =>
    match σ.attempts[i]? with
    | some ⟨token, device, code, phase, challenge, some step, .sent checked⟩ =>
      if σ.store.now < checked + claimMargin then
        let r := (cacheAdd site.storeId (stepKey p device step) 120).run σ.store
        { σ with
          store := r.2
          attempts := σ.attempts.set i ⟨token, device, code, phase, challenge, some step, .replied r.1⟩ }
      else σ
    | _ => σ
  | .stepReply i => σ.update i Attempt.stepReply
  | .giveUp i => σ.update i Attempt.giveUp
  | .budget key maximum =>
    if budgetKey key then { σ with store := ((budget site.storeId key maximum).run σ.store).2 } else σ
  | .check => { σ with store := ((checkSecurityStore site.storeId).run σ.store).2 }
  | .migrate confirmQuiesced =>
    { σ with store :=
        ((initializeSecurityStore site "migrate" confirmQuiesced false []).run σ.store).2 }
  | .admission data =>
    { σ with store := { σ.store with data := fun k => if admissionKey k then data k else σ.store.data k } }
  | .advance ms => { σ with store := σ.store.advance ms }

/-- The world after `actions`, newest first. -/
def World.after (p : Primitives) (site : Admission.Site) (start : World) : List Action → World
  | [] => start
  | action :: earlier => (World.after p site start earlier).step p site action

section Effects
variable {site : Admission.Site}

/-- Everything a step can do to the store. -/
inductive StoreEffect (site : Admission.Site) (s : Store Key) : Store Key → Prop
  | same : StoreEffect site s s
  | claim (k : Key) (v : Bytes) {seconds : ℕ} (hs : seconds ≠ 0) (hk : claimKey k)
      (hguard : storeGuard site.storeId s = .ok ()) :
      StoreEffect site s ((Script.setNxEx k v seconds).run s).2
  /-- A new budget window. -/
  | opened (k : Key) (v : Bytes) (hk : budgetKey k) (hfree : s.find k = none) :
      StoreEffect site s (s.write k (some ⟨.str v, some (s.now + challengeSeconds * 1000)⟩))
  /-- A hit within the budget window there is. -/
  | counted (k : Key) (v v' : Bytes) (e : Option ℕ) (hk : budgetKey k)
      (hfind : s.find k = some ⟨.str v, e⟩) :
      StoreEffect site s (s.write k (some ⟨.str v', e⟩))
  | migrated (hfree : s.exist .marker = false) :
      StoreEffect site s (s.write .marker
        (some ⟨.str (markerText site.storeId (s.seconds + migrationDelay)), none⟩))
  | admission (data : Key → Option Entry) :
      StoreEffect site s { s with data := fun k => if admissionKey k then data k else s.data k }
  | advance (ms : ℕ) : StoreEffect site s (s.advance ms)

theorem cacheAdd_effect {k : Key} {seconds : ℕ} (hs : seconds ≠ 0) (hk : claimKey k)
    (s : Store Key) : StoreEffect site s ((cacheAdd site.storeId k seconds).run s).2 := by
  rcases storeOperation_run site.storeId (Script.setNxEx k "1".toList seconds) s with
    ⟨e, -, h⟩ | ⟨hguard, h⟩
  · rw [cacheAdd, h]
    exact .same
  · rw [cacheAdd, h]
    exact .claim k _ hs hk hguard

theorem budgetScript_effect {k : Key} (hk : budgetKey k) (maximum : ℕ) (s : Store Key) :
    StoreEffect site s ((budgetScript k challengeSeconds maximum).run s).2 := by
  unfold budgetScript
  rw [Script.run_query_bind]
  split
  · next count hget =>
    rcases count with _ | count
    · exact .opened k _ hk (Store.get_eq_none hget)
    · obtain ⟨e, hfind⟩ := Store.get_eq_some hget
      dsimp only
      rcases Lua.tonumber count with _ | n
      · exact .same
      dsimp only
      rw [Script.run_ite, Script.run_ite]
      split
      · exact .same
      split
      · exact .same
      simp only [Script.run, Script.incr, hfind]
      split
      · exact .same
      split
      · exact .same
      · exact .counted k count _ e hk hfind
  · exact .same

theorem budget_effect {k : Key} (hk : budgetKey k) (maximum : ℕ) (s : Store Key) :
    StoreEffect site s ((budget site.storeId k maximum).run s).2 := by
  have hstore : ((budget site.storeId k maximum).run s).2 =
      ((storeOperation site.storeId (budgetScript k challengeSeconds maximum)).run s).2 := by
    rw [budget, Script.run_bind]
    split
    · next heq => rw [heq]; rfl
    · next heq => rw [heq]
  rw [hstore]
  rcases storeOperation_run site.storeId (budgetScript k challengeSeconds maximum) s with
    ⟨e, -, h⟩ | ⟨-, h⟩ <;> rw [h]
  · exact .same
  · exact budgetScript_effect hk maximum s

theorem migrateScript_run (storeId : Bytes) (s : Store Key) :
    (migrateScript storeId).run s = if s.exist .marker then (.ok 0, s)
      else (.ok 1, s.write .marker
        (some ⟨.str (markerText storeId (s.seconds + migrationDelay)), none⟩)) := by
  simp only [migrateScript, Script.run_query_bind, Script.run_ite, Script.set,
    Script.run_modify_bind, Script.run_pure]

theorem migrate_effect (confirmQuiesced authorityEmpty : Bool) (generation : Bytes)
    (s : Store Key) : StoreEffect site s
      ((initializeSecurityStore site "migrate" confirmQuiesced authorityEmpty generation).run s).2 := by
  unfold initializeSecurityStore
  rw [if_neg (by decide), Script.run_ite]
  split
  · exact .same
  rw [Script.run_bind, migrateScript_run]
  by_cases hmarker : s.exist .marker = true
  · rw [if_pos hmarker]
    exact .same
  · rw [if_neg hmarker]
    exact .migrated (by simpa using hmarker)

theorem step_effect (p : Primitives) (site : Admission.Site) (σ : World) (action : Action) :
    StoreEffect site σ.store (σ.step p site action).store := by
  cases action with
  | sign token userId authBackend azdAuthHash azdNonce =>
    simp only [World.step]
    split <;> exact .same
  | prepare freshUser backend device code token =>
    simp only [World.step]
    split <;> exact .same
  | evalChallenge i =>
    simp only [World.step]
    split
    · split
      · exact cacheAdd_effect (by decide) rfl _
      · exact .same
    · exact .same
  | evalStep i =>
    simp only [World.step]
    split
    · split
      · exact cacheAdd_effect (by decide) rfl _
      · exact .same
    · exact .same
  | challengeReply i | stepReply i | giveUp i =>
    simp only [World.step, World.update]
    split <;> exact .same
  | budget key maximum =>
    simp only [World.step]
    split
    · next hk => exact budget_effect hk maximum _
    · exact .same
  | check =>
    simp only [World.step, checkSecurityStore]
    rcases storeOperation_run site.storeId (pure () : Script Key Unit) σ.store with
      ⟨e, -, h⟩ | ⟨-, h⟩ <;> rw [h] <;> exact .same
  | migrate confirmQuiesced => exact migrate_effect ..
  | admission data => exact .admission data
  | advance ms => exact .advance ms

theorem StoreEffect.now_le {s t : Store Key} (h : StoreEffect site s t) : s.now ≤ t.now := by
  cases h with
  | claim k v hs hk hguard =>
    rw [Script.setNxEx_run k v hs]
    split <;> exact le_rfl
  | advance ms => exact Nat.le_add_right _ _
  | _ => exact le_rfl

/-- Claims are never released early. -/
theorem StoreEffect.held {s t : Store Key} (h : StoreEffect site s t) {k : Key} {deadline : ℕ}
    (hk : claimKey k) (hheld : s.Held k deadline) : t.Held k deadline := by
  have hne {k' : Key} (hk' : claimKey k' = false) : k ≠ k' := by
    rintro rfl
    simp [hk] at hk'
  cases h with
  | same => exact hheld
  | claim k' v hs _ hguard => exact hheld.setNxEx hs
  | opened k' v hk' hfree | counted k' v v' e hk' hfind =>
    refine hheld.congr ?_
    rw [Store.write_data, if_neg (hne (by cases k' <;> simp_all [budgetKey, claimKey]))]
  | migrated hfree =>
    refine hheld.congr ?_
    rw [Store.write_data, if_neg (hne rfl)]
  | admission data =>
    refine hheld.congr (if_neg ?_)
    cases k <;> simp_all [admissionKey, claimKey]
  | advance ms => exact hheld

end Effects
end Operator
