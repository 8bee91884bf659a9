import AzdSanta.Common.Sequential
import AzdSanta.PowerShell.Comparison

/-! `Invoke-SantaIntuneProfiles.ps1` with `-Apply`, against the device configurations of a tenant.
Every confirmation is granted. -/
namespace Intune
open Python PowerShell Processes Sequential

/-- The target of an assignment. -/
structure Target where
  kind : Text
  groupId : Option Text
  filterId : Option Text
  filterType : Option Text
  deriving DecidableEq

structure Assignment where
  target : Option Target
  deriving DecidableEq

/-- A device configuration. A property that is missing reads like one that is null. -/
structure Profile where
  id : ℕ
  kind : Text
  displayName : Option Text
  description : Option Text
  payload : Option Text
  payloadName : Option Text
  payloadFileName : Option Text
  assignments : List Assignment
  deriving DecidableEq

/-- What is sent for a profile. -/
structure Body where
  displayName : Text
  description : Text
  payloadName : Text
  payloadFileName : Text
  payload : Text
  deriving DecidableEq

def customConfiguration : Text := text "#microsoft.graph.macOSCustomConfiguration"

def groupTarget : Text := text "#microsoft.graph.groupAssignmentTarget"

inductive Call where
  | getContext
  | connect
  | getGroup
  | getMembers
  | listProfiles
  | getProfile (id : ℕ)
  | getAssignments (id : ℕ)
  | createProfile (body : Body)
  | patchProfile (id : ℕ) (body : Body)
  | assign (id : ℕ) (groupId : Text)
  | writeReceipt
  deriving DecidableEq

/-- A POST or a PATCH. -/
def Call.mutates : Call → Bool
  | .createProfile _ | .patchProfile _ _ | .assign _ _ => true
  | _ => false

structure Context where
  tenantId : Text
  account : Text
  scopes : List Text

structure Group where
  displayName : Option Text
  securityEnabled : Bool
  mailEnabled : Bool
  groupTypes : List Text
  membershipRule : Option Text

structure Member where
  kind : Text
  displayName : Option Text
  operatingSystem : Option Text

inductive Reply where
  | context (c : Option Context)
  | done
  | group (g : Group)
  | members (list : List Member)
  /-- A page, and whether there is an `@odata.nextLink`. -/
  | profiles (page : List Profile) (more : Bool)
  | profile (p : Profile)
  | assignments (page : List Assignment) (more : Bool)
  | created (id : ℕ)
  /-- The call failed, or its reply was lost. -/
  | error

def Reply.asContext : Reply → Option (Option Context)
  | .context c => some c
  | _ => none

def Reply.asDone : Reply → Option Unit
  | .done => some ()
  | _ => none

def Reply.asGroup : Reply → Option Group
  | .group g => some g
  | _ => none

def Reply.asMembers : Reply → Option (List Member)
  | .members list => some list
  | _ => none

def Reply.asProfiles : Reply → Option (List Profile × Bool)
  | .profiles page more => some (page, more)
  | _ => none

def Reply.asProfile : Reply → Option Profile
  | .profile p => some p
  | _ => none

def Reply.asAssignments : Reply → Option (List Assignment × Bool)
  | .assignments page more => some (page, more)
  | _ => none

def Reply.asCreated : Reply → Option ℕ
  | .created id => some id
  | _ => none

/-- What the script takes from its language. -/
structure Shell where
  comparison : Comparison
  /-- `UTF8.GetString(FromBase64String(payload))`; `none` when it throws. -/
  payloadText : Text → Option Text

abbrev Script := Prog Call Reply

structure Spec where
  id : Text
  fileName : Text
  displayName : Text
  description : Text
  payload : Text

/-- `$lock.release.tag`. -/
def releaseTag : Text := text "2026.8"

/-- The files of `New-SantaProfileSet`, in the order of the manifest. -/
def profileFiles : List Text :=
  [text "10-system-extension.mobileconfig", text "20-tcc.mobileconfig",
    text "30-service-management.mobileconfig", text "40-configuration.mobileconfig",
    text "50-notifications.mobileconfig"]

/-- `$fileName -replace '^\d+-','' -replace '\.mobileconfig$',''`. -/
def profileId (fileName : Text) : Text :=
  let rest := match fileName.takeWhile isDigit, fileName.dropWhile isDigit with
    | _ :: _, 45 :: rest => rest
    | _, _ => fileName
  let extension := text ".mobileconfig"
  if extension <:+ rest then rest.take (rest.length - extension.length) else rest

structure Parameters where
  tenantId : Text
  pilotGroupId : Text
  expectedGroupDisplayName : Text
  expectedDeviceName : Text
  expectedAccount : Text
  allowProfileUpdate : Bool
  /-- The generated file, in base64. -/
  payload : Text → Text

def specOf (payload : Text → Text) (fileName : Text) : Spec where
  id := profileId fileName
  fileName := fileName
  displayName := text "Santa " ++ releaseTag ++ text " - " ++ profileId fileName
  description := text "[azd-santa:" ++ releaseTag ++ 58 :: profileId fileName ++
    text "] Template-owned Intune profile."
  payload := payload fileName

/-- `$desired`. -/
def Parameters.desired (k : Parameters) : List Spec := profileFiles.map (specOf k.payload)

def Spec.body (spec : Spec) : Body where
  displayName := spec.displayName
  description := spec.description
  payloadName := spec.fileName
  payloadFileName := spec.fileName
  payload := spec.payload

section Tests
variable (shell : Shell)

/-- `Test-ExactPilotAssignment`. -/
def testExactPilotAssignment (groupId : Text) (a : Assignment) : Bool :=
  match a.target with
  | none => false
  | some target =>
    shell.comparison.eq target.kind groupTarget && shell.comparison.is target.groupId groupId &&
      castString target.filterId = [] &&
      (target.filterType = none || shell.comparison.is target.filterType (text "none"))

/-- `Test-EquivalentPayload`. -/
def testEquivalentPayload (remote desired : Text) : Bool :=
  match shell.payloadText remote, shell.payloadText desired with
  | some remote, some desired => shell.comparison.ceq (trimEnd remote) (trimEnd desired)
  | _, _ => false

end Tests

inductive Action where
  | create
  | verify
  | update
  deriving DecidableEq

structure Item where
  spec : Spec
  remote : Option Profile
  assigned : Bool
  action : Action

section Script
variable (shell : Shell) (k : Parameters)

def requiredScopes : List Text :=
  [text "DeviceManagementConfiguration.ReadWrite.All", text "Group.Read.All"]

def lacksScope (scopes : List Text) : Bool :=
  requiredScopes.any fun scope => !scopes.any fun s => shell.comparison.eq scope s

/-- The context, after a connection when there is none that fits. -/
def connected : Script (Option Context) := do
  let context ← invoke .getContext Reply.asContext
  if context.any fun c => shell.comparison.eq c.tenantId k.tenantId && !lacksScope shell c.scopes then
    return context
  else do
    invoke .connect Reply.asDone
    invoke .getContext Reply.asContext

def checkContext (context : Option Context) : Script Unit :=
  need (context.any fun c => shell.comparison.eq c.tenantId k.tenantId &&
    shell.comparison.eq c.account k.expectedAccount && !lacksScope shell c.scopes)

/-- `-match '^Mac'`. -/
def isMac (operatingSystem : Text) : Bool := (operatingSystem.take 3).map lowerAscii = text "mac"

def checkGroup : Script Unit := do
  let group ← invoke .getGroup Reply.asGroup
  need (shell.comparison.is group.displayName k.expectedGroupDisplayName)
  need (group.securityEnabled ∧ ¬ group.mailEnabled)
  need (¬ (group.groupTypes.any fun t => shell.comparison.eq (text "DynamicMembership") t) ∧
    castString group.membershipRule = [])
  let members ← invoke .getMembers Reply.asMembers
  match members with
  | [member] => need (shell.comparison.eq member.kind (text "#microsoft.graph.device") ∧
      shell.comparison.isExactly member.displayName k.expectedDeviceName ∧ isMac (castString member.operatingSystem))
  | _ => .fail

/-- The action for a profile that exists. The parameters of `Test-EquivalentPayload` are mandatory, which
an empty string is not. -/
def chooseAction (spec : Spec) (remote : Profile) : Script Action := do
  need (castString remote.payload ≠ [] ∧ spec.payload ≠ [])
  if testEquivalentPayload shell (castString remote.payload) spec.payload ∧
      shell.comparison.ceq (castString remote.payloadName) spec.fileName ∧
      shell.comparison.ceq (castString remote.payloadFileName) spec.fileName then return .verify
  else return .update

/-- The checks of a profile that exists. -/
def inspectRemote (spec : Spec) (id : ℕ) : Script Item := do
  let remote ← invoke (.getProfile id) Reply.asProfile
  need (shell.comparison.eq remote.kind customConfiguration ∧
    shell.comparison.isExactly remote.description spec.description)
  let (assignments, more) ← invoke (.getAssignments remote.id) Reply.asAssignments
  need (more = false)
  need (assignments.length ≤ 1 ∧ assignments.all (testExactPilotAssignment shell k.pilotGroupId))
  let action ← chooseAction shell spec remote
  return ⟨spec, some remote, assignments.length = 1, action⟩

/-- One round of the preflight. -/
def inspect (page : List Profile) (spec : Spec) : Script Item := do
  let sameName := page.filter fun p => shell.comparison.is p.displayName spec.displayName
  let owned := sameName.filter fun p => shell.comparison.is p.description spec.description
  need (sameName.length = owned.length)
  need (owned.length ≤ 1)
  match owned.head? with
  | none => return ⟨spec, none, false, .create⟩
  | some found => inspectRemote shell k spec found.id

/-- Everything before the first change. -/
def preflight : Script (List Item) := do
  let context ← connected shell k
  checkContext shell k context
  checkGroup shell k
  let (page, more) ← invoke .listProfiles Reply.asProfiles
  need (more = false)
  let items ← k.desired.mapM (inspect shell k page)
  need (k.allowProfileUpdate ∨ ∀ item ∈ items, item.action ≠ .update)
  return items

/-- The object of an item, created or updated where needed. -/
def deliver (item : Item) : Script ℕ :=
  match item.action, item.remote with
  | .create, _ => invoke (.createProfile item.spec.body) Reply.asCreated
  | .update, some remote => do
    invoke (.patchProfile remote.id item.spec.body) Reply.asDone
    return remote.id
  | .verify, some remote => return remote.id
  | _, none => .fail

def assignPilot (item : Item) (id : ℕ) : Script Unit :=
  if item.assigned = false ∨ item.action = .update then invoke (.assign id k.pilotGroupId) Reply.asDone
  else return ()

/-- One round of the loop that applies. -/
def applyItem (item : Item) : Script Text := do
  let id ← deliver item
  assignPilot k item id
  let (assignments, _) ← invoke (.getAssignments id) Reply.asAssignments
  need (assignments.length = 1 ∧ assignments.all (testExactPilotAssignment shell k.pilotGroupId))
  invoke .writeReceipt Reply.asDone
  return item.spec.id

def applyItems (items : List Item) : Script Unit := do
  let receipt ← items.mapM (applyItem shell k)
  need (receipt.length = k.desired.length)

/-- The script. -/
def applyProfiles : Script Unit := do
  let items ← preflight shell k
  applyItems shell k items

end Script

/-- The tenant, and the changes that were asked for with the profiles at that time. -/
structure World where
  profiles : List Profile
  unique : (profiles.map Profile.id).Nodup
  issued : List (Call × List Profile)

section Graph
variable (shell : Shell)

/-- A payload is stored up to the newlines at its end. -/
def Stores (sent stored : Text) : Prop :=
  ∃ t t', shell.payloadText sent = some t ∧ shell.payloadText stored = some t' ∧ trimEnd t' = trimEnd t

def Body.profile (body : Body) (id : ℕ) (stored : Text) : Profile where
  id := id
  kind := customConfiguration
  displayName := some body.displayName
  description := some body.description
  payload := some stored
  payloadName := some body.payloadName
  payloadFileName := some body.payloadFileName
  assignments := []

def Body.patch (body : Body) (stored : Text) (p : Profile) : Profile :=
  { body.profile p.id stored with kind := p.kind, assignments := p.assignments }

/-- Changes the one profile with this id. -/
def modify (id : ℕ) (f : Profile → Profile) (profiles : List Profile) : List Profile :=
  profiles.map fun p => if p.id = id then f p else p

/-- The assignment that `assign` leaves. -/
def pilotAssignment (groupId : Text) (filterType : Option Text) : Assignment :=
  ⟨some ⟨groupTarget, some groupId, none, filterType⟩⟩

/-- What a change does to the profiles, with the id that it is answered with. -/
inductive Changes : Call → ℕ → List Profile → List Profile → Prop
  | create (body : Body) (id : ℕ) (stored : Text) (profiles : List Profile)
      (hfresh : ∀ p ∈ profiles, p.id ≠ id) (hstored : Stores shell body.payload stored) :
      Changes (.createProfile body) id profiles (profiles ++ [body.profile id stored])
  | patch (body : Body) (id : ℕ) (stored : Text) (profiles : List Profile)
      (hstored : Stores shell body.payload stored) :
      Changes (.patchProfile id body) id profiles (modify id (body.patch stored) profiles)
  | assign (groupId : Text) (id : ℕ) (filterType : Option Text) (profiles : List Profile)
      (hfilter : filterType = none ∨ filterType = some (text "none")) :
      Changes (.assign id groupId) id profiles
        (modify id (fun p => { p with assignments := [pilotAssignment groupId filterType] }) profiles)

/-- The replies to a read. The context, the group and its members are not followed here: any reply
can come. -/
def Reads (profiles : List Profile) : Call → Reply → Prop
  | .listProfiles, .profiles page more => more = false → page = profiles
  | .getProfile id, .profile p => p ∈ profiles ∧ p.id = id
  | .getAssignments id, .assignments page more =>
    more = false → ∃ p ∈ profiles, p.id = id ∧ page = p.assignments
  | .getContext, .context _ | .connect, .done | .getGroup, .group _ | .getMembers, .members _
  | .writeReceipt, .done | _, .error => True
  | _, _ => False

/-- The replies to a change. A call whose reply is an error may have been carried out. -/
def Answers (call : Call) (before after : List Profile) : Reply → Prop
  | .created id => call.mutates = true ∧ (∃ body, call = .createProfile body) ∧ Changes shell call id before after
  | .done => (∀ body, call ≠ .createProfile body) ∧ ∃ id, Changes shell call id before after
  | .error => after = before ∨ ∃ id, Changes shell call id before after
  | _ => False

/-- A change is noted when it is asked for. -/
def effect (call : Call) (r : Reply) (w w' : World) : Prop :=
  if call.mutates then
    w'.issued = (call, w.profiles) :: w.issued ∧ Answers shell call w.profiles w'.profiles r
  else w' = w ∧ Reads w.profiles call r

end Graph
end Intune
