import AzdSanta.Recovery.Seal

/-! `apply_access`: a reset of one local operator that spans a reserved output file, a database
transaction and an audit event. Any step can raise; which ones do is an argument. -/
namespace Recovery
open Python Setup

structure User where
  pk : ℕ
  username : Text
  email : Text
  isActive : Bool
  isRemote : Bool
  isServiceAccount : Bool
  isSuperuser : Bool
  password : Text
  deriving DecidableEq

/-- A factor, a token or an issuer of a user. -/
structure OwnedRow where
  pk : ℕ
  user : ℕ
  deriving DecidableEq

structure Tables where
  users : List User
  totp : List OwnedRow
  webauthn : List OwnedRow
  apiTokens : List OwnedRow
  oidcIssuers : List OwnedRow
  deriving DecidableEq

/-- The rows that are not of this user. -/
def others (user : ℕ) (rows : List OwnedRow) : List OwnedRow := rows.filter fun r => r.user ≠ user

def countOf (user : ℕ) (rows : List OwnedRow) : ℕ := rows.countP fun r => r.user = user

/-- The messages of `AccessError`. -/
inductive AccessError where
  | chooseMode
  | exactIdentity
  | singleLineReason
  | validIdentity
  | resetPolicy
  | recipient
  | recipientRequired
  | outputPath
  | humansExist
  | identityConflict
  | noMatch
  | notLocalHuman
  | httpsOrigin
  | unconfirmed
  | artifactFailed
  | auditFailed
  deriving DecidableEq

def AccessError.message : AccessError → String
  | .chooseMode => "Choose bootstrap or recover."
  | .exactIdentity => "Provide the exact username and email."
  | .singleLineReason =>
    "Provide a single-line reason of at most 256 characters; never include secrets."
  | .validIdentity => "Provide a valid exact username and email identity."
  | .resetPolicy => "The reviewed ten-minute reset policy is not installed."
  | .recipient => "Recipient key/context/origin validation failed before user security changes."
  | .recipientRequired =>
    "Sealed export requires an explicit recipient public key and context digest."
  | .outputPath => "Choose an absolute path in an existing non-symlink directory."
  | .humansExist => "Bootstrap requires no human accounts, including inactive or remote humans; use targeted recovery."
  | .identityConflict => "Bootstrap identity conflicts with an existing account."
  | .noMatch => "Exact target username and email did not match."
  | .notLocalHuman => "Recovery requires an active local human; it never activates or converts accounts."
  | .httpsOrigin => "A configured HTTPS setup origin is required."
  | .unconfirmed => "No confirmed access commit; reserved artifact retained. Inspect target state before retrying."
  | .artifactFailed => "Access reset committed but setup artifact write failed. Inspect target state; reissue targeted recovery to a new absent path."
  | .auditFailed => "Access reset committed and private setup artifact written; audit submission failed. Inspect locally."

inductive Raised where
  | access (e : AccessError)
  /-- Any other exception, with a text of its own. -/
  | other
  deriving DecidableEq

/-- The places where something outside this function can raise. -/
inductive Step where
  | validateEmail
  | cleanUsername
  | reserve
  | fchmod
  | fdopen
  | enter
  | lockContentType
  | queryHumans
  | queryIdentity
  | createUser
  | selectUser
  | serialize
  | countTotp
  | countWebauthn
  | countTokens
  | countIssuers
  | setPassword
  | save
  | deleteTotp
  | deleteWebauthn
  | deleteTokens
  | deleteIssuers
  | generateUrl
  | buildEvent
  | clock
  | dump
  | write
  | flush
  | fsync
  | post
  | close
  deriving DecidableEq

/-- How the commit ends. -/
inductive Commit where
  | done
  /-- It raises, and the database is as before. -/
  | refused
  /-- It raises without a known outcome. -/
  | unknown (applied : Bool)
  deriving DecidableEq

/-- Which steps raise, how the commit ends and how much of a failing write gets through. -/
structure Faults where
  fails : Step → Bool
  commit : Commit
  reaches : Step → ℕ

inductive Action where
  | created
  | updated
  deriving DecidableEq

structure Event where
  user : User
  action : Action
  previous : Option User
  mode : Text
  reason : Text
  removed : Removed
  deriving DecidableEq

/-- The reserved output: what is on disk and what the stream still holds. -/
structure Output where
  written : Text
  buffer : Text
  synced : Bool

structure World where
  tables : Tables
  output : Option Output
  /-- The audit events submitted, newest first. -/
  posted : List Event

structure Request where
  mode : Text
  username : Text
  email : Text
  reason : Text
  recipientPublicKey : Option Text
  contextSha256 : Option Text
  sealedStdout : Bool

/-- What the deployment answers. -/
structure Site extends Library where
  /-- `validate_email` and the field check of the username, when they do not raise. -/
  identityValid : Text → Text → Bool
  /-- `settings.PASSWORD_RESET_TIMEOUT`. -/
  resetTimeout : ℕ
  apiBaseUrl : Text
  /-- An absolute path in an existing directory that is no link. -/
  pathValid : Bool
  /-- `username__iexact` and `email__iexact`. -/
  iexact : Text → Text → Bool
  /-- `create_user`. -/
  newUser : Text → Text → User
  /-- `make_password` of a random password. -/
  newPassword : Text
  /-- `handler.generate_password_reset_url`. -/
  resetUrl : User → Text
  /-- `time.time() + RESET_SECONDS`. -/
  expires : Json
  /-- The text of `json.dump`, with separators for a recipient and indented otherwise. -/
  dump : Bool → Json → Text

def raiseIf (f : Faults) (s : Step) : Except Raised Unit := if f.fails s then throw .other else pure ()

def refuseIf (c : Prop) [Decidable c] (e : AccessError) : Except Raised Unit :=
  if c then throw (.access e) else pure ()

/-- `validate_request`. -/
def validateRequest (r : Request) : Except Raised Unit := do
  refuseIf (r.mode ∉ modes) .chooseMode
  refuseIf (r.username = [] ∨ r.username ≠ strip r.username ∨ r.username.length > 150 ∨
    r.email ≠ strip r.email ∨ r.email = [] ∨ r.email.length > 254) .exactIdentity
  refuseIf (strip r.reason = [] ∨ r.reason.length > 256 ∨ r.reason.any (· < 32)) .singleLineReason

/-- `RESET_SECONDS`. -/
def resetSeconds : ℕ := 600

/-- Everything before the output is reserved. -/
def prepare (site : Site) (f : Faults) (r : Request) : Except Raised (Option Recipient) := do
  validateRequest r
  raiseIf f .validateEmail
  raiseIf f .cleanUsername
  refuseIf (¬ site.identityValid r.username r.email) .validIdentity
  refuseIf (site.resetTimeout ≠ resetSeconds) .resetPolicy
  match r.recipientPublicKey with
  | some key =>
    match site.prepareRecipient key (r.contextSha256.getD []) r.mode r.username r.email site.apiBaseUrl with
    | some recipient => return some recipient
    | none => throw (.access .recipient)
  | none =>
    refuseIf (r.contextSha256.isSome ∨ r.sealedStdout) .recipientRequired
    return none

/-- `reserve_output`, up to the creation of the file. -/
def reserveOutput (site : Site) (f : Faults) : Except Raised Unit := do
  refuseIf (¬ site.pathValid) .outputPath
  raiseIf f .reserve

def Artifact.json (a : Artifact) : Json :=
  .obj [(text "scope", .str (text "private-local-operator-setup")), (text "mode", .str a.mode),
    (text "target", .obj [(text "pk", .int a.target.pk), (text "username", .str a.target.username),
      (text "email", .str a.target.email)]),
    (text "reason", .str a.reason),
    (text "removed", .obj [(text "totp", .int a.removed.totp), (text "webauthn", .int a.removed.webauthn),
      (text "human_tokens", .int a.removed.humanTokens),
      (text "human_oidc_issuers", .int a.removed.humanOidcIssuers)]),
    (text "setup_url", .str a.setupUrl), (text "expires_at_unix", a.expires),
    (text "audit", .str (text "submission not delivery proof")),
    (text "session_invalidation",
      .str (text "password/auth-hash invalidation; session rows are not purged"))]

/-- The target row: a new one, or the one that matches exactly. -/
def selectTarget (site : Site) (f : Faults) (r : Request) (t : Tables) :
    Except Raised (Tables × User × Action × Option User) := do
  if r.mode = text "bootstrap" then
    raiseIf f .queryHumans
    refuseIf (t.users.any fun u => !u.isServiceAccount) .humansExist
    raiseIf f .queryIdentity
    refuseIf (t.users.any fun u => site.iexact u.username r.username || site.iexact u.email r.email)
      .identityConflict
    raiseIf f .createUser
    let user := site.newUser r.username r.email
    return ({ t with users := t.users ++ [user] }, user, .created, none)
  else
    raiseIf f .selectUser
    match t.users.find? fun u => u.username = r.username with
    | none => throw (.access .noMatch)
    | some user =>
      refuseIf (user.email ≠ r.email) .noMatch
      refuseIf (¬ user.isActive ∨ user.isRemote ∨ user.isServiceAccount) .notLocalHuman
      raiseIf f .serialize
      return (t, user, .updated, some user)

def countRemoved (f : Faults) (t : Tables) (user : ℕ) : Except Raised Removed := do
  raiseIf f .countTotp
  raiseIf f .countWebauthn
  raiseIf f .countTokens
  raiseIf f .countIssuers
  return ⟨countOf user t.totp, countOf user t.webauthn, countOf user t.apiTokens,
    countOf user t.oidcIssuers⟩

/-- The tables after the reset of `user`. -/
def Tables.reset (t : Tables) (user : User) (password : Text) : Tables where
  users := t.users.map fun u => if u.pk = user.pk then { user with password := password } else u
  totp := others user.pk t.totp
  webauthn := others user.pk t.webauthn
  apiTokens := others user.pk t.apiTokens
  oidcIssuers := others user.pk t.oidcIssuers

def resetTarget (site : Site) (f : Faults) (t : Tables) (user : User) : Except Raised Tables := do
  raiseIf f .setPassword
  raiseIf f .save
  raiseIf f .deleteTotp
  raiseIf f .deleteWebauthn
  raiseIf f .deleteTokens
  raiseIf f .deleteIssuers
  return t.reset user site.newPassword

/-- The check of the setup URL. -/
def checkUrl (site : Site) (url : Text) : Except Raised Unit :=
  match site.urlsplit url with
  | none => throw .other
  | some parsed =>
    refuseIf (parsed.scheme ≠ text "https" ∨ (parsed.hostname.getD []) = [] ∨
      (parsed.username.getD []) ≠ [] ∨ (parsed.password.getD []) ≠ [] ∨ parsed.query ≠ [] ∨
      parsed.fragment ≠ []) .httpsOrigin

/-- What a transaction leaves for the time after its commit. -/
structure Prepared where
  tables : Tables
  event : Event
  artifact : Artifact
  /-- `output_artifact`. -/
  output : Json

/-- The body of the transaction. -/
def transaction (site : Site) (f : Faults) (r : Request) (recipient : Option Recipient) (t : Tables) :
    Except Raised Prepared := do
  raiseIf f .enter
  raiseIf f .lockContentType
  let (t, user, action, previous) ← selectTarget site f r t
  let removed ← countRemoved f t user.pk
  let t ← resetTarget site f t user
  let user := { user with password := site.newPassword }
  raiseIf f .generateUrl
  let setupUrl := site.resetUrl user
  checkUrl site setupUrl
  raiseIf f .buildEvent
  let event : Event := ⟨user, action, previous, r.mode, r.reason, removed⟩
  raiseIf f .clock
  let artifact : Artifact := ⟨r.mode, ⟨user.pk, user.username, user.email⟩, r.reason, removed, setupUrl,
    site.expires⟩
  match recipient with
  | none => return ⟨t, event, artifact, artifact.json⟩
  | some recipient =>
    match recipient.seal site.toLibrary artifact with
    | some envelope => return ⟨t, event, artifact, envelope⟩
    | none => throw .other

/-- `stream.write`; a failing one may have taken a part of the text. -/
def Output.put (f : Faults) (s : Step) (t : Text) (o : Output) : Except Raised Unit × Output :=
  if f.fails s then (.error .other, { o with buffer := o.buffer ++ t.take (f.reaches s) })
  else (.ok (), { o with buffer := o.buffer ++ t })

/-- The buffer on its way to the disk. -/
def Output.drain (f : Faults) (s : Step) (o : Output) : Except Raised Unit × Output :=
  if f.fails s then
    (.error .other, { o with
      written := o.written ++ o.buffer.take (f.reaches s), buffer := o.buffer.drop (f.reaches s) })
  else (.ok (), { o with written := o.written ++ o.buffer, buffer := [] })

def Output.sync (f : Faults) (o : Output) : Except Raised Unit × Output :=
  if f.fails .fsync then (.error .other, o) else (.ok (), { o with synced := true })

/-- One stream operation after another. -/
def Output.andThen (x : Except Raised Unit × Output) (next : Output → Except Raised Unit × Output) :
    Except Raised Unit × Output :=
  match x with
  | (.ok (), o) => next o
  | (.error e, o) => (.error e, o)

/-- `json.dump`, the newline, `flush` and `fsync`. -/
def Output.store (f : Faults) (t : Text) (o : Output) : Except Raised Unit × Output :=
  Output.andThen (o.put f .dump t) fun o =>
  Output.andThen (o.put f .write [10]) fun o =>
  Output.andThen (o.drain f .flush) fun o => o.sync f

structure Result where
  target : Target
  removed : Removed
  sealed : Option Json

/-- The rest of the `try` block after the commit. -/
def afterCommit (site : Site) (f : Faults) (r : Request) (p : Prepared) (w : World) (o : Output) :
    Except Raised Result × World :=
  match o.store f (site.dump r.recipientPublicKey.isSome p.output) with
  | (.error _, o) => (.error (.access .artifactFailed), { w with output := some o })
  | (.ok (), o) =>
    let w := { w with output := some o }
    if f.fails .post then (.error (.access .auditFailed), w)
    else
      (.ok ⟨p.artifact.target, p.artifact.removed, if r.sealedStdout then some p.output else none⟩,
        { w with posted := p.event :: w.posted })

/-- The `try` block with its handlers. -/
def guarded (site : Site) (f : Faults) (r : Request) (recipient : Option Recipient) (w : World)
    (o : Output) : Except Raised Result × World :=
  match transaction site f r recipient w.tables with
  | .error (.access e) => (.error (.access e), w)
  | .error .other => (.error (.access .unconfirmed), w)
  | .ok p =>
    match f.commit with
    | .refused => (.error (.access .unconfirmed), w)
    | .unknown applied =>
      (.error (.access .unconfirmed), if applied then { w with tables := p.tables } else w)
    | .done => afterCommit site f r p { w with tables := p.tables } o

/-- The end of the `with` block: what the stream still holds is written, and an error of the
close takes the place of whatever was returned or raised. -/
def closeOutput (f : Faults) (x : Except Raised Result × World) : Except Raised Result × World :=
  match x.2.output with
  | none => x
  | some o =>
    let (closed, o) := o.drain f .close
    match closed with
    | .ok () => (x.1, { x.2 with output := some o })
    | .error e => (.error e, { x.2 with output := some o })

def Output.empty : Output := ⟨[], [], false⟩

/-- `apply_access`. -/
def applyAccess (site : Site) (f : Faults) (r : Request) (w : World) : Except Raised Result × World :=
  match prepare site f r with
  | .error e => (.error e, w)
  | .ok recipient =>
    match reserveOutput site f with
    | .error e => (.error e, w)
    | .ok () =>
      let w := { w with output := some .empty }
      if f.fails .fchmod ∨ f.fails .fdopen then (.error .other, w)
      else closeOutput f (guarded site f r recipient w .empty)

end Recovery
