import AzdSanta.Operator.Policy

/-! The `RequireOperatorMFA` middleware for authenticated requests, run by any number of
processes for any number of sessions. A request is cut where others can come between:
loading the session, waiting for the row lock, the first factor read with the decision
taken on it, the inner view, the second factor read, the commit and saving the session. -/
namespace Operator
open Redis

/-- The view names that the middleware tells apart. -/
inductive View where
  | logout
  /-- Any name under `realms_public:`. -/
  | realmsPublic
  /-- `accounts:add_totp`. -/
  | addTotp
  | registerWebauthn
  | deleteTotp
  | deleteWebauthn
  /-- One of the four API token views; `human` when the account in the URL exists and is
  no service account. -/
  | apiToken (human : Bool)
  | other
  deriving DecidableEq

def View.isDelete : View → Bool
  | .deleteTotp | .deleteWebauthn => true
  | _ => false

/-- The views that take the row lock on POST. -/
def View.locks : View → Bool
  | .addTotp | .registerWebauthn | .deleteTotp | .deleteWebauthn => true
  | _ => false

structure Session where
  user : Option ℕ
  backend : Option Bytes
  proof : Option Proof
  enroll : Option Enrollment
  seed : Option Bytes
  mfaAuthenticated : Bool

def Session.empty : Session := ⟨none, none, none, none, none, false⟩

/-- `_proof`. -/
def proofValid (p : Primitives) (now : ℕ) (s : Session) (u : Account) (fs : List Bytes) : Bool :=
  match s.proof with
  | some proof =>
    !fs.isEmpty && fresh now proof.stamp proof.issued u proofSeconds && s.mfaAuthenticated &&
      proof.factors = factorsDigest p fs
  | none => false

def enrollingNow (now : ℕ) (s : Session) (u : Account) (fs : List Bytes) : Bool :=
  match s.enroll with
  | some e => fs.isEmpty && fresh now e.stamp e.issued u enrollSeconds
  | none => false

/-- `begin_enrollment`; `none` is `PermissionDenied` after a logout. -/
def beginEnrollment (p : Primitives) (now : ℕ) (s : Session) (u : Account) : Option Session :=
  if !isLocalIn u s.backend || !(factors p u.devices).isEmpty then none
  else some { s with
    proof := none
    seed := none
    mfaAuthenticated := false
    enroll := some ⟨stamp u, now⟩ }

/-- `complete_mfa`. -/
def completeMfa (s : Session) (proof : Proof) : Session :=
  { s with
    proof := some proof
    mfaAuthenticated := true
    enroll := none
    seed := none }

/-- What the middleware does before or instead of calling the view. -/
inductive Verdict where
  | respond (status : ℕ) (flush : Bool)
  | handler (verified enrolling : Bool)
  deriving DecidableEq

/-- The decision on the first factor read. -/
def decision (p : Primitives) (now : ℕ) (view : View) (post : Bool) (s : Session) (u : Account) :
    Verdict :=
  let fs := factors p u.devices
  let verified := proofValid p now s u fs
  let enrolling := enrollingNow now s u fs
  if !verified && !enrolling then .respond 302 true
  else if !verified && view ≠ .addTotp then .respond 302 false
  else if view.isDelete && post && fs.length ≤ 1 then .respond 403 false
  else if view = .apiToken true then .respond 403 false
  else .handler verified enrolling

/-- The checks in front of the lock; `none` goes on to the decision. -/
def earlyVerdict (view : View) (storeReady : Bool) (s : Session) (u : Account) : Option Verdict :=
  if view ≠ .logout ∧ !storeReady then some (.respond 503 false)
  else if view = .realmsPublic then some (.respond 403 false)
  else if !isLocalIn u s.backend then some (.respond 403 true)
  else if view = .logout then some (.handler false false)
  else none

inductive RequestPhase where
  | arrived
  /-- Blocked in `select_for_update`. -/
  | waiting
  /-- `get_response` is running. -/
  | inner
  | viewed (status : ℕ)
  | responded (flush : Bool)
  /-- `prepare_mfa` has read the account. -/
  | preparing (u : Account)
  | prepared (proof : Proof)
  | ended
  | finished

structure Request where
  session : ℕ
  user : ℕ
  view : View
  post : Bool
  /-- `request.session` as loaded and changed by this request. -/
  copy : Session
  phase : RequestPhase
  verified : Bool
  enrolling : Bool
  /-- The first factor read. -/
  before : List Bytes

def Request.locked (r : Request) : Bool := r.view.locks && r.post

/-- The views after which the factors are read again. -/
def Request.readsAgain (r : Request) : Bool := r.view = .addTotp || r.locked

/-- Factor changes by the inner view of a locked request. -/
inductive Change where
  | keep
  | add (device : Device)
  | remove (device : Device)
  | replace (devices : List Device)

/-- Upstream removes factors in the delete views only. -/
def Change.apply (view : View) (devices : List Device) : Change → List Device
  | .keep => devices
  | .add d => devices ++ [d]
  | .remove d => if view.isDelete then devices.erase d else devices
  | .replace ds => ds

/-- What happened, for statements about histories. -/
inductive Event where
  | began (session : ℕ) (recorded : Stamp) (time : ℕ)
  | returned (session : ℕ) (proof : Proof)
  | completed (session : ℕ) (proof : Proof) (time : ℕ)
  | changed (session user : ℕ) (verified : Bool) (before : List Bytes)

structure GateState where
  now : ℕ
  accounts : ℕ → Account
  /-- Who holds the row lock, and the devices as that transaction sees them. -/
  locks : ℕ → Option (ℕ × List Device)
  sessions : ℕ → Session
  requests : List Request
  log : List Event

/-- `get(pk=k)`. -/
def GateState.account (σ : GateState) (k : ℕ) : Account := { σ.accounts k with pk := k }

/-- The committed factor list of a user. -/
def GateState.factorsOf (p : Primitives) (σ : GateState) (k : ℕ) : List Bytes :=
  factors p (σ.account k).devices

/-- The devices of its own user as request `i` reads them. -/
def GateState.devicesSeen (σ : GateState) (i : ℕ) (r : Request) : List Device :=
  match σ.locks r.user with
  | some (j, working) => if j = i then working else (σ.account r.user).devices
  | none => (σ.account r.user).devices

inductive GateAction where
  | arrive (session : ℕ) (view : View) (post : Bool)
  | enter (request : ℕ) (storeReady : Bool)
  | acquire (request : ℕ)
  | inner (request : ℕ) (change : Change) (status : ℕ)
  | second (request : ℕ)
  | commit (request : ℕ)
  | save (request : ℕ)
  | abort (request : ℕ)
  | login (session user : ℕ) (backend : Bytes)
  | prepare (session user : ℕ)
  | accept (request : ℕ) (device : Device)
  | complete (request : ℕ)
  | setPassword (user : ℕ) (authHash : Bytes) (usable : Bool)
  | setDevices (user : ℕ) (devices : List Device)
  | advance (ms : ℕ)

/-- The request after the decision. -/
def Request.decided (r : Request) (fs : List Bytes) : Verdict → Request
  | .respond _ flush => { r with phase := .responded flush, before := fs }
  | .handler verified enrolling =>
    { r with phase := .inner, verified := verified, enrolling := enrolling, before := fs }

/-- The end of `__call__` on the second factor read. -/
def Request.afterSecond (p : Primitives) (r : Request) (status : ℕ) (fs : List Bytes) : Request :=
  let changed := fs ≠ r.before
  let seed := if (status = 200 ∨ status = 201 ∨ status = 302) ∧ changed then none else r.copy.seed
  if r.enrolling && !fs.isEmpty then
    { r with copy := { r.copy with seed := seed }, phase := .responded true }
  else if r.verified ∧ changed then
    { r with
      copy := { r.copy with
        seed := seed
        proof := r.copy.proof.map fun proof => { proof with factors := factorsDigest p fs } }
      phase := .responded false }
  else { r with copy := { r.copy with seed := seed }, phase := .responded false }

/-- A request that has only loaded its session. -/
def Request.begin (session user : ℕ) (view : View) (post : Bool) (copy : Session)
    (phase : RequestPhase) : Request :=
  ⟨session, user, view, post, copy, phase, false, false, []⟩

/-- `auth_login`: the session of another user is not kept. -/
def authLogin (s : Session) (user : ℕ) (backend : Bytes) : Session :=
  { (if s.user = some user then s else Session.empty) with
    user := some user
    backend := some backend }

def GateState.append (σ : GateState) (r : Request) : GateState :=
  { σ with requests := σ.requests ++ [r] }

def GateState.setRequest (σ : GateState) (i : ℕ) (r : Request) : GateState :=
  { σ with requests := σ.requests.set i r }

def GateState.setLock (σ : GateState) (k : ℕ) (lock : Option (ℕ × List Device)) : GateState :=
  { σ with locks := Function.update σ.locks k lock }

def GateState.setAccount (σ : GateState) (k : ℕ) (u : Account) : GateState :=
  { σ with accounts := Function.update σ.accounts k u }

def GateState.setSession (σ : GateState) (k : ℕ) (s : Session) : GateState :=
  { σ with sessions := Function.update σ.sessions k s }

def GateState.record (σ : GateState) (e : Event) : GateState := { σ with log := e :: σ.log }

/-- A lock holder publishes its devices and unlocks. -/
def GateState.published (σ : GateState) (p : Primitives) (r : Request) (working : List Device) :
    GateState :=
  let τ := (σ.setAccount r.user { σ.account r.user with devices := working }).setLock r.user none
  if factors p working ≠ σ.factorsOf p r.user then
    τ.record (.changed r.session r.user r.verified r.before)
  else τ

/-- The end of `__call__`, with the logout it may have asked for. -/
def GateState.close (σ : GateState) (i : ℕ) (r : Request) (flush : Bool) : GateState :=
  if flush then
    (σ.setSession r.session .empty).setRequest i { r with copy := .empty, phase := .ended }
  else σ.setRequest i { r with phase := .ended }

/-- One step of one request, when the request is in the right phase for it. -/
def GateState.advanceRequest (p : Primitives) (σ : GateState) (i : ℕ) (r : Request) :
    GateAction → GateState
  | .enter _ storeReady =>
    match r.phase with
    | .arrived =>
      match earlyVerdict r.view storeReady r.copy (σ.account r.user) with
      | some verdict => σ.setRequest i (r.decided [] verdict)
      | none =>
        if r.locked then σ.setRequest i { r with phase := .waiting }
        else σ.setRequest i (r.decided (σ.factorsOf p r.user)
          (decision p σ.now r.view r.post r.copy (σ.account r.user)))
    | _ => σ
  | .acquire _ =>
    match r.phase, σ.locks r.user with
    | .waiting, none =>
      (σ.setLock r.user (some (i, (σ.account r.user).devices))).setRequest i
        (r.decided (σ.factorsOf p r.user)
          (decision p σ.now r.view r.post r.copy (σ.account r.user)))
    | _, _ => σ
  | .inner _ change status =>
    match r.phase, σ.locks r.user with
    | .inner, some (j, working) =>
      let τ := σ.setRequest i { r with phase := .viewed status }
      if j = i then τ.setLock r.user (some (i, change.apply r.view working)) else τ
    | .inner, none => σ.setRequest i { r with phase := .viewed status }
    | _, _ => σ
  | .second _ =>
    match r.phase with
    | .viewed status =>
      if r.view = .logout then σ.setRequest i { r with phase := .responded true }
      else if r.readsAgain then
        σ.setRequest i (r.afterSecond p status (factors p (σ.devicesSeen i r)))
      else σ.setRequest i { r with phase := .responded false }
    | _ => σ
  | .commit _ =>
    match r.phase, σ.locks r.user with
    | .responded flush, some (j, working) =>
      if j = i then (σ.published p r working).close i r flush else σ.close i r flush
    | .responded flush, none => σ.close i r flush
    | _, _ => σ
  | .save _ =>
    match r.phase with
    | .ended => (σ.setSession r.session r.copy).setRequest i { r with phase := .finished }
    | _ => σ
  | .abort _ =>
    let τ := σ.setRequest i { r with phase := .finished }
    match σ.locks r.user with
    | some (j, _) => if j = i then τ.setLock r.user none else τ
    | none => τ
  | .accept _ device =>
    match r.phase with
    | .preparing u =>
      if isLocal u ∧ hasFactor p u.devices device then
        let proof : Proof := ⟨stamp u, σ.now, factorsDigest p (factors p u.devices)⟩
        (σ.setRequest i { r with phase := .prepared proof }).record (.returned r.session proof)
      else σ.setRequest i { r with phase := .responded true }
    | _ => σ
  | .complete _ =>
    match r.phase with
    | .prepared proof =>
      let copy := completeMfa (authLogin r.copy r.user localBackend) proof
      (σ.setRequest i { r with copy := copy, phase := .ended }).record
        (.completed r.session proof σ.now)
    | _ => σ
  | _ => σ

/-- The request an action is about. -/
def GateAction.request : GateAction → Option ℕ
  | .enter i _ | .acquire i | .inner i _ _ | .second i | .commit i | .save i | .abort i
  | .accept i _ | .complete i => some i
  | _ => none

/-- One step; an action that is not enabled changes nothing. -/
def GateState.step (p : Primitives) (σ : GateState) : GateAction → GateState
  | .arrive session view post =>
    match (σ.sessions session).user with
    | some user =>
      σ.append (.begin session user view post (σ.sessions session) .arrived)
    | none => σ
  | .login session user backend =>
    let copy := authLogin (σ.sessions session) user backend
    match beginEnrollment p σ.now copy (σ.account user) with
    | some copy =>
      (σ.append (.begin session user .other true copy .ended)).record
        (.began session (stamp (σ.account user)) σ.now)
    | none => σ.append (.begin session user .other true copy (.responded true))
  | .prepare session user =>
    σ.append (.begin session user .other true (σ.sessions session) (.preparing (σ.account user)))
  | .setPassword user authHash usable =>
    σ.setAccount user
      { σ.account user with sessionAuthHash := authHash, hasUsablePassword := usable }
  | .setDevices user devices => σ.setAccount user { σ.account user with devices := devices }
  | .advance ms => { σ with now := σ.now + ms }
  | action =>
    match action.request with
    | some i =>
      match σ.requests[i]? with
      | some r => σ.advanceRequest p i r action
      | none => σ
    | none => σ

/-- The state after `actions`, newest first. -/
def GateState.after (p : Primitives) (start : GateState) : List GateAction → GateState
  | [] => start
  | action :: earlier => (GateState.after p start earlier).step p action

/-- A start: any accounts, no session and no request. -/
def GateState.initial (now : ℕ) (accounts : ℕ → Account) : GateState :=
  ⟨now, accounts, fun _ => none, fun _ => .empty, [], []⟩

end Operator
