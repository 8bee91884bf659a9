import AzdSanta.Common.RowLocks
import AzdSanta.Recovery.Access

/-! The transaction of `apply_access` beside other ones and beside `LockedResetConfirmView`, call by call. -/
namespace Recovery.Concurrent
open Python Processes RowLocks

/-- The rows that are locked: the one of the content type and those of the users. -/
inductive Key where
  | contentType
  | user (pk : ℕ)
  deriving DecidableEq

def key (u : User) : Key := .user u.pk

/-- What the code takes from the reset tokens and from the database. -/
structure Site where
  /-- The token of a user at a time. -/
  makeToken : User → ℕ → Text
  /-- The time that a token names. -/
  timestamp : Text → Option ℕ
  timestamp_make : ∀ u t, timestamp (makeToken u t) = some t
  /-- A token is a keyed hash over the key and the password hash of its user, among others. -/
  determined : ∀ u u' t t', makeToken u t = makeToken u' t' → u.pk = u'.pk ∧ u.password = u'.password
  /-- `username__iexact` and `email__iexact`. -/
  iexact : Text → Text → Bool
  normalizeEmail : Text → Text

/-- `check_token`. -/
def Site.checkToken (site : Site) (u : User) (token : Text) (now : ℕ) : Bool :=
  match site.timestamp token with
  | none => false
  | some t => site.makeToken u t = token && now - t ≤ resetSeconds

/-- `user.is_active and not user.is_remote and not user.is_service_account`. -/
def isLocalHuman (u : User) : Bool := u.isActive && !u.isRemote && !u.isServiceAccount

/-- A request for `LockedResetConfirmView`. The token is the one of the URL or the one that the session keeps. -/
structure Confirm where
  pk : ℕ
  token : Text
  /-- The form is posted, and its new password is accepted. -/
  sets : Bool
  deriving DecidableEq

/-- What a setup URL leads to. -/
structure Link where
  pk : ℕ
  token : Text
  deriving DecidableEq

def Site.link (site : Site) (u : User) (now : ℕ) : Link := ⟨u.pk, site.makeToken u now⟩

/-- What a commit is noted as. -/
inductive Note where
  | bootstrap (r : Request) (link : Link)
  | recover (r : Request) (old : User) (link : Link)
  | set (k : Confirm) (old : User) (now : ℕ)
  /-- A commit of something else. -/
  | other

def Note.isBootstrap : Note → Bool
  | .bootstrap _ _ => true
  | _ => false

/-- The link that is given out. -/
def Note.link : Note → Option Link
  | .bootstrap _ link | .recover _ _ link => some link
  | _ => none

/-- The token that a password was set with. -/
def Note.token : Note → Option Text
  | .set k _ _ => some k.token
  | _ => none

inductive Call where
  | lockContentType
  | humansExist
  | identityExists (username email : Text)
  | createUser (username email : Text)
  /-- `select_for_update().filter(username=username).first()`. -/
  | selectUser (username : Text)
  | getUser (pk : ℕ)
  /-- `select_for_update().get(pk=pk)`. -/
  | lockUser (pk : ℕ)
  | clock
  /-- `set_password` and `save`. -/
  | setPassword (user : User)
  /-- The rest before the commit: the factors, the origin, the event and the sealing. -/
  | prepare
  | commit (note : Option Note)
  | rollback

inductive Reply where
  | done
  | yes (b : Bool)
  | user (u : User)
  | found (u : Option User)
  | instant (t : ℕ)
  /-- The call failed, and with it the transaction. -/
  | error
  /-- The commit is done, and its reply was lost. -/
  | lost

def Reply.asDone : Reply → Option Unit
  | .done => some ()
  | _ => none

def Reply.asYes : Reply → Option Bool
  | .yes b => some b
  | _ => none

def Reply.asUser : Reply → Option User
  | .user u => some u
  | _ => none

def Reply.asFound : Reply → Option (Option User)
  | .found u => some u
  | _ => none

def Reply.asInstant : Reply → Option ℕ
  | .instant t => some t
  | _ => none

abbrev Script := Prog Call Reply

section Scripts
variable (site : Site)

/-- An exception leaves the transaction. -/
def refuse : Script Unit := do
  invoke .rollback Reply.asDone
  .fail

def check (c : Prop) [Decidable c] (rest : Script Unit) : Script Unit := if c then rest else refuse

/-- From the new password to the commit. -/
def finishAccess (user : User) (note : Link → Note) : Script Unit := do
  let user ← invoke (.setPassword user) Reply.asUser
  let now ← invoke .clock Reply.asInstant
  let prepared ← invoke .prepare Reply.asYes
  check (prepared = true) (invoke (.commit (some (note (site.link user now)))) Reply.asDone)

/-- The transaction of `apply_access`. -/
def applyAccess (r : Request) : Script Unit := do
  invoke .lockContentType Reply.asDone
  if r.mode = text "bootstrap" then do
    let humans ← invoke .humansExist Reply.asYes
    check (humans = false) do
      let taken ← invoke (.identityExists r.username r.email) Reply.asYes
      check (taken = false) do
        let user ← invoke (.createUser r.username r.email) Reply.asUser
        finishAccess site user (.bootstrap r)
  else do
    let found ← invoke (.selectUser r.username) Reply.asFound
    match found with
    | none => refuse
    | some user =>
      check (user.email = r.email) (check (isLocalHuman user = true) (finishAccess site user (.recover r user)))

/-- A response is rendered, and nothing was written. -/
def leave : Script Unit := invoke (.commit none) Reply.asDone

/-- `LockedResetConfirmView.dispatch`. -/
def dispatch (k : Confirm) : Script Unit := do
  let seen ← invoke (.getUser k.pk) Reply.asFound
  match seen with
  | none => leave
  | some _ => do
    let found ← invoke (.lockUser k.pk) Reply.asFound
    match found with
    | none => leave
    | some user => do
      let now ← invoke .clock Reply.asInstant
      if isLocalHuman user = true ∧ site.checkToken user k.token now = true ∧ k.sets = true then do
        let _ ← invoke (.setPassword user) Reply.asUser
        invoke (.commit (some (.set k user now))) Reply.asDone
      else leave

end Scripts

/-- The database, every password hash that was made, and the time. Hashes are salted, so that none is made twice. -/
structure Shared where
  db : Database Key User Note
  made : List Text
  now : ℕ

def Shared.initial (users : List User) (now : ℕ) : Shared := ⟨.initial users, users.map User.password, now⟩

section System
variable (site : Site)

/-- The accounts that `create_user` makes. -/
def isNewAdmin (username email : Text) (u : User) : Bool :=
  u.username = username && u.email = email && isLocalHuman u && u.isSuperuser

def effect (n : ℕ) (op : Call) (reply : Reply) (s : Shared) : Option Shared :=
  let live := s.db.ended n = false
  let set (db : Option (Database Key User Note)) : Option Shared := db.map fun db => { s with db := db }
  match op, reply with
  | _, .error => set (s.db.release n)
  | .lockContentType, .done => set (s.db.lock n .contentType)
  | .humansExist, .yes b => if live ∧ b = s.db.rows.any fun u => !u.isServiceAccount then some s else none
  | .identityExists username email, .yes b =>
    if live ∧ b = s.db.rows.any (fun u => site.iexact u.username username || site.iexact u.email email) then some s
    else none
  | .createUser username email, .user u =>
    if isNewAdmin username (site.normalizeEmail email) u ∧ (s.db.rows.all fun v => v.pk ≠ u.pk) ∧ u.password ∉ s.made then
      (s.db.lock n (key u)).bind fun db => (db.stage key n u).map fun db => ⟨db, u.password :: s.made, s.now⟩
    else none
  | .selectUser username, .found (some u) =>
    if u ∈ s.db.rows ∧ u.username = username then set (s.db.lock n (key u)) else none
  | .selectUser username, .found none => if live ∧ s.db.rows.all fun u => u.username ≠ username then some s else none
  | .getUser pk, .found u => if live ∧ u = s.db.rows.find? fun u => u.pk = pk then some s else none
  | .lockUser pk, .found (some u) => if u ∈ s.db.rows ∧ u.pk = pk then set (s.db.lock n (key u)) else none
  | .lockUser pk, .found none => if live ∧ s.db.rows.all fun u => u.pk ≠ pk then some s else none
  | .clock, .instant t => if t = s.now then some s else none
  | .setPassword user, .user u =>
    if u = { user with password := u.password } ∧ u.password ∉ s.made then
      (s.db.stage key n u).map fun db => ⟨db, u.password :: s.made, s.now⟩
    else none
  | .prepare, .yes _ => some s
  | .commit none, .done | .commit none, .lost | .rollback, .done => if live then set (s.db.release n) else none
  | .commit (some note), .done | .commit (some note), .lost => set (s.db.commit key n note)
  | _, _ => none

/-- What the other parts of the deployment do: time passes, a connection is cut off, an account changes or a service
account is made. -/
inductive Disturb where
  | time (t : ℕ)
  | cut (n : ℕ)
  | change (u : User)

/-- Humans are neither made nor ended elsewhere, and a password is kept or made anew. -/
def Shared.mayChange (s : Shared) (u : User) : Bool :=
  (s.db.rows.any fun v => v.pk = u.pk && v.isServiceAccount = u.isServiceAccount &&
    (u.password = v.password || u.password ∉ s.made)) ||
  (s.db.rows.all fun v => v.pk ≠ u.pk) && u.isServiceAccount && u.password ∉ s.made

def disturb : Disturb → Shared → Option Shared
  | .time t, s => some { s with now := t }
  | .cut n, s => some { s with db := s.db.release n }
  | .change u, s =>
    if s.mayChange u then (s.db.change key .other u).map fun db => ⟨db, u.password :: s.made, s.now⟩ else none

/-- Any number of commands and requests. -/
def Site.system : System Call Reply (Request ⊕ Confirm) Disturb Shared where
  program
    | .inl r => applyAccess site r
    | .inr k => dispatch site k
  effect n _ := effect site n
  disturb := disturb

end System
end Recovery.Concurrent
