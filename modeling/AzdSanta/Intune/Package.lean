import AzdSanta.Common.Sequential
import AzdSanta.Intune.Content
import AzdSanta.Intune.Report

/-! `Invoke-SantaIntunePackage.ps1`, against the apps of a tenant and the storage behind them. -/
namespace Intune.Package
open Python PowerShell Processes Sequential

/-- What is used of the release lock. -/
structure Lock where
  sha256 : Text
  bundleIdentifier : Text
  bundleShortVersion : Text
  assetName : Text
  size : ℕ

/-- An assignment of an app. -/
structure AppAssignment where
  intent : Text
  target : Option Target
  deriving DecidableEq

structure ContentFile where
  id : ℕ
  name : Text
  size : ℕ
  deriving DecidableEq

structure ContentVersion where
  id : ℕ
  files : List ContentFile
  deriving DecidableEq

/-- An app. A property that is missing reads like one that is null. -/
structure App where
  id : ℕ
  kind : Text
  displayName : Option Text
  notes : Option Text
  owner : Option Text
  primaryBundleId : Option Text
  primaryBundleVersion : Option Text
  committedContentVersion : Option ℕ
  assignments : List AppAssignment
  versions : List ContentVersion
  deriving DecidableEq

/-- What is sent for the app, as far as it is looked at again. -/
structure AppBody where
  displayName : Text
  notes : Text
  owner : Text
  primaryBundleId : Text
  primaryBundleVersion : Text
  deriving DecidableEq

structure FileBody where
  name : Text
  size : ℕ
  sizeEncrypted : ℕ
  deriving DecidableEq

inductive Call where
  /-- A run begins. -/
  | start
  /-- `Test-SantaPackageVerificationReceipt`. -/
  | testReceipt
  /-- The report is read, and fits its schema. -/
  | readReport
  | utcNow
  | shouldProcess
  | connect
  | getContext
  | getGroup
  | getMembers
  | findApps
  | getApp (id : ℕ)
  | getAssignments (id : ℕ)
  | getVersions (id : ℕ)
  | getFiles (id version : ℕ)
  | getFile (id version file : ℕ)
  | generateKeys
  | writeReceipt (action : Text)
  | createApp (body : AppBody)
  | createVersion (id : ℕ)
  | createFile (id version : ℕ) (body : FileBody)
  | put (request : Put)
  | commit (id version file : ℕ) (info : EncryptionInfo)
  | patchApp (id version : ℕ)
  | assign (id : ℕ) (groupId : Text)
  deriving DecidableEq

/-- A POST, a PATCH or a PUT. -/
def Call.mutates : Call → Bool
  | .createApp _ | .createVersion _ | .createFile _ _ _ | .put _ | .commit _ _ _ _ | .patchApp _ _ | .assign _ _ => true
  | _ => false

inductive Reply where
  | done
  | yes (b : Bool)
  | report (r : StatusReport)
  | instant (t : ℤ)
  | context (c : Option Context)
  | group (g : Group)
  | members (list : List Member)
  /-- The ids of the apps that were found. -/
  | apps (ids : List ℕ)
  | app (a : App) (publishingState : Text) (isAssigned : Bool)
  | assignments (list : List AppAssignment)
  | versions (ids : List ℕ)
  | version (id : ℕ)
  /-- Files with their upload states. -/
  | files (list : List (ContentFile × Text))
  | file (f : ContentFile) (uploadState : Text) (azureStorageUri : Text)
  | keys (d : Draws)
  /-- The call failed, or its reply was lost. -/
  | error

def Reply.asDone : Reply → Option Unit
  | .done => some ()
  | _ => none

def Reply.asYes : Reply → Option Bool
  | .yes b => some b
  | _ => none

def Reply.asReport : Reply → Option StatusReport
  | .report r => some r
  | _ => none

def Reply.asInstant : Reply → Option ℤ
  | .instant t => some t
  | _ => none

def Reply.asContext : Reply → Option (Option Context)
  | .context c => some c
  | _ => none

def Reply.asGroup : Reply → Option Group
  | .group g => some g
  | _ => none

def Reply.asMembers : Reply → Option (List Member)
  | .members list => some list
  | _ => none

def Reply.asApps : Reply → Option (List ℕ)
  | .apps ids => some ids
  | _ => none

def Reply.asApp : Reply → Option (App × Text × Bool)
  | .app a publishingState isAssigned => some (a, publishingState, isAssigned)
  | _ => none

def Reply.asAssignments : Reply → Option (List AppAssignment)
  | .assignments list => some list
  | _ => none

def Reply.asVersions : Reply → Option (List ℕ)
  | .versions ids => some ids
  | _ => none

def Reply.asVersion : Reply → Option ℕ
  | .version id => some id
  | _ => none

def Reply.asFiles : Reply → Option (List (ContentFile × Text))
  | .files list => some list
  | _ => none

def Reply.asFile : Reply → Option (ContentFile × Text × Text)
  | .file f uploadState azureStorageUri => some (f, uploadState, azureStorageUri)
  | _ => none

def Reply.asKeys : Reply → Option Draws
  | .keys d => some d
  | _ => none

/-- What the script takes from its language and from the release. -/
structure Shell where
  inspector : Inspector
  crypto : Crypto
  lock : Lock

abbrev Script := Prog Call Reply

structure Parameters where
  tenantId : Text
  pilotGroupId : Text
  expectedPilotGroupName : Text
  expectedDeviceName : Text
  expectedAccount : Text
  apply : Bool
  /-- The file name in `PackagePath`, and the content of the file. -/
  fileName : Text
  package : Bytes

section Names
variable (shell : Shell)

/-- `$displayName`. -/
def displayName : Text := text "Santa " ++ releaseTag ++ text " (azd-santa pilot)"

/-- `$ownershipMarker`. -/
def ownershipMarker : Text := text "azd-santa; release=" ++ releaseTag ++ text "; sha256=" ++ shell.lock.sha256

/-- `$appBody`. -/
def appBody : AppBody where
  displayName := displayName
  notes := ownershipMarker shell
  owner := text "azd-santa"
  primaryBundleId := shell.lock.bundleIdentifier
  primaryBundleVersion := shell.lock.bundleShortVersion

def pkgApp : Text := text "#microsoft.graph.macOSPkgApp"

/-- The checks of an app that exists. -/
def isOwnedApp (a : App) : Bool :=
  let c := shell.inspector.comparison
  c.eq a.kind pkgApp && c.is a.displayName displayName && c.is a.notes (ownershipMarker shell) &&
    c.is a.owner (text "azd-santa") && c.is a.primaryBundleId shell.lock.bundleIdentifier &&
    c.is a.primaryBundleVersion shell.lock.bundleShortVersion

/-- `Test-ExactRequiredAssignment`. -/
def testExactRequiredAssignment (groupId : Text) (a : AppAssignment) : Bool :=
  let c := shell.inspector.comparison
  c.eq a.intent (text "required") && match a.target with
    | none => false
    | some target => c.eq target.kind groupTarget && c.is target.groupId groupId && castString target.filterId = [] &&
        (target.filterType = none || c.is target.filterType (text "none"))

end Names

section Script
variable (shell : Shell) (k : Parameters)

/-- The ticks of a minute. -/
def minute : ℤ := 600000000

/-- Whether a report is of the selected tenant, account, group and device. -/
def isSelected (r : StatusReport) : Bool :=
  let c := shell.inspector.comparison
  c.eq r.tenantId k.tenantId && c.eq r.account k.expectedAccount && c.eq r.pilotGroup.id k.pilotGroupId &&
    c.eq r.pilotGroup.displayName k.expectedPilotGroupName && c.eq r.pilotDevice.deviceName k.expectedDeviceName

/-- The receipt and the report. -/
def checkReport : Script Unit := do
  invoke .testReceipt Reply.asDone
  let report ← invoke .readReport Reply.asReport
  let now ← invoke .utcNow Reply.asInstant
  let collected ← ofOption (shell.inspector.dateTimeOffset report.collectedAt)
  need (-5 * minute ≤ now - collected ∧ now - collected ≤ 30 * minute)
  need (isSelected shell k report = true)
  let verified ← ofOption (testSantaIntuneProfileReport shell.inspector report)
  need (report.deliveryReadiness = true ∧ verified.deliveryReadiness = true)

/-- The context, the group and its member. -/
def checkTarget : Script Unit := do
  let c := shell.inspector.comparison
  invoke .connect Reply.asDone
  let context ← invoke .getContext Reply.asContext
  need (context.any fun x => c.eq x.tenantId k.tenantId && c.eq x.account k.expectedAccount)
  let group ← invoke .getGroup Reply.asGroup
  need (c.is group.displayName k.expectedPilotGroupName)
  need (group.securityEnabled ∧ ¬ group.mailEnabled ∧ ¬ (group.groupTypes.any fun t => c.eq (text "DynamicMembership") t) ∧
    castString group.membershipRule = [])
  let members ← invoke .getMembers Reply.asMembers
  match members with
  | [member] => need (c.eq member.kind (text "#microsoft.graph.device") ∧ c.is member.displayName k.expectedDeviceName ∧
      (c.is member.operatingSystem (text "macOS") ∨ c.is member.operatingSystem (text "MacMDM")))
  | _ => .fail

/-- `Wait-ContentFileState`, with the attempts that are left. -/
def waitContentFileState (id version file : ℕ) (stage : String) : ℕ → Script (ContentFile × Text)
  | 0 => .fail
  | attempts + 1 => do
    let (f, state, uri) ← invoke (.getFile id version file) Reply.asFile
    let c := shell.inspector.comparison
    if c.eq state (text (stage ++ "Success")) then return (f, uri)
    else do
      need (c.eq state (text (stage ++ "Pending")) ∨ c.eq state (text "success"))
      waitContentFileState id version file stage attempts

/-- The loop that waits for the app to be published, from an attempt on. -/
def waitPublished (id : ℕ) : ℕ → ℕ → Script Unit
  | 0, _ => .fail
  | attempts + 1, attempt => do
    let (_, state, _) ← invoke (.getApp id) Reply.asApp
    let c := shell.inspector.comparison
    if c.eq state (text "published") then return ()
    else do
      need (¬ (c.eq state (text "notPublished") ∧ 2 < attempt))
      waitPublished id attempts (attempt + 1)

/-- `Send-BlockBlob`, PUT by PUT. -/
def sendAll : List Put → Script Unit
  | [] => .ret ()
  | request :: rest => do
    invoke (.put request) Reply.asDone
    sendAll rest

/-- `$content`: the one version of the app, which has no file. -/
def contentVersion (id : ℕ) : Script ℕ := do
  let versions ← invoke (.getVersions id) Reply.asVersions
  match versions with
  | [] => invoke (.createVersion id) Reply.asVersion
  | [version] => do
    let files ← invoke (.getFiles id version) Reply.asFiles
    need (files.length = 0)
    return version
  | _ => .fail

/-- From the file that is created to the one that is committed. -/
def uploadFile (id version : ℕ) : Script Unit := do
  let keys ← invoke .generateKeys Reply.asKeys
  let content := protectIntuneContent shell.crypto keys k.package
  let (created, _, _) ← invoke (.createFile id version ⟨k.fileName, k.package.length, content.bytes.length⟩) Reply.asFile
  let (_, uri) ← waitContentFileState shell id version created.id "azureStorageUriRequest" 12
  sendAll (sendBlockBlob uri content.bytes)
  invoke (.commit id version created.id content.info) Reply.asDone
  let _ ← waitContentFileState shell id version created.id "commitFile" 12

def assignPilot (id : ℕ) : Script Unit := do
  invoke (.assign id k.pilotGroupId) Reply.asDone
  let readback ← invoke (.getAssignments id) Reply.asAssignments
  need (readback.length = 1 ∧ readback.all (testExactRequiredAssignment shell k.pilotGroupId))
  invoke (.writeReceipt (text "uploaded")) Reply.asDone

/-- What is done with an app that has no content. -/
def deliver (id : ℕ) : Script Unit := do
  let version ← contentVersion id
  uploadFile shell k id version
  invoke (.patchApp id version) Reply.asDone
  waitPublished shell id 18 0
  assignPilot shell k id

/-- The checks of an app whose content is committed. -/
def verifyExisting (a : App) (publishingState : Text) (readback : List AppAssignment) (version : ℕ) : Script Unit := do
  let c := shell.inspector.comparison
  need (c.eq publishingState (text "published") ∧ readback.length = 1 ∧
    readback.all (testExactRequiredAssignment shell k.pilotGroupId))
  let files ← invoke (.getFiles a.id version) Reply.asFiles
  need (files.length = 1 ∧ files.all fun f => c.eq f.1.name shell.lock.assetName && f.1.size = shell.lock.size &&
    c.eq f.2 (text "commitFileSuccess"))
  invoke (.writeReceipt (text "verified-existing")) Reply.asDone

/-- An app that exists is verified, or taken up where it is untouched. -/
def resume (id : ℕ) : Script Unit := do
  let (a, publishingState, isAssigned) ← invoke (.getApp id) Reply.asApp
  need (isOwnedApp shell a = true)
  let readback ← invoke (.getAssignments a.id) Reply.asAssignments
  match a.committedContentVersion with
  | some version => verifyExisting shell k a publishingState readback version
  | none => do
    need (readback.length = 0 ∧ isAssigned = false)
    deliver shell k a.id

def applyPackage : Script Unit := do
  checkTarget shell k
  let existing ← invoke .findApps Reply.asApps
  match existing with
  | [] => do
    let (a, _, _) ← invoke (.createApp (appBody shell)) Reply.asApp
    deliver shell k a.id
  | [id] => resume shell k id
  | _ => .fail

/-- The script. -/
def invokePackage : Script Unit := do
  invoke .start Reply.asDone
  checkReport shell k
  if k.apply then do
    let confirmed ← invoke .shouldProcess Reply.asYes
    if confirmed then applyPackage shell k else return ()
  else return ()

end Script

/-- A change that was asked for, with the apps at that time and what its run had asked before, the last first. -/
structure Issue where
  call : Call
  apps : List App
  run : List (Call × Reply)

/-- The tenant, what the run has asked so far, and all changes that were asked for. -/
structure World where
  apps : List App
  unique : (apps.map App.id).Nodup
  run : List (Call × Reply)
  issued : List Issue

section Graph

/-- Changes the one app with this id. -/
def modifyApp (id : ℕ) (f : App → App) (apps : List App) : List App :=
  apps.map fun a => if a.id = id then f a else a

def AppBody.app (body : AppBody) (id : ℕ) : App where
  id := id
  kind := pkgApp
  displayName := some body.displayName
  notes := some body.notes
  owner := some body.owner
  primaryBundleId := some body.primaryBundleId
  primaryBundleVersion := some body.primaryBundleVersion
  committedContentVersion := none
  assignments := []
  versions := []

def App.addVersion (version : ℕ) (a : App) : App := { a with versions := a.versions ++ [⟨version, []⟩] }

def App.addFile (version : ℕ) (f : ContentFile) (a : App) : App :=
  { a with versions := a.versions.map fun v => if v.id = version then { v with files := v.files ++ [f] } else v }

def App.commitVersion (version : ℕ) (a : App) : App := { a with committedContentVersion := some version }

/-- The assignment that `assign` adds. -/
def requiredAssignment (groupId : Text) (filterType : Option Text) : AppAssignment :=
  ⟨text "required", some ⟨groupTarget, some groupId, none, filterType⟩⟩

def App.addAssignment (groupId : Text) (filterType : Option Text) (a : App) : App :=
  { a with assignments := a.assignments ++ [requiredAssignment groupId filterType] }

/-- What a change does to the apps, with the reply that tells of it. The upload and the commit of a file are followed
in its upload state, which can be anything. -/
inductive Changes : Call → Reply → List App → List App → Prop
  | createApp (body : AppBody) (id : ℕ) (publishingState : Text) (isAssigned : Bool) (apps : List App)
      (hfresh : ∀ a ∈ apps, a.id ≠ id) :
      Changes (.createApp body) (.app (body.app id) publishingState isAssigned) apps (apps ++ [body.app id])
  | createVersion (id version : ℕ) (apps : List App) :
      Changes (.createVersion id) (.version version) apps (modifyApp id (App.addVersion version) apps)
  | createFile (id version : ℕ) (body : FileBody) (file : ℕ) (uploadState uri : Text) (apps : List App) :
      Changes (.createFile id version body) (.file ⟨file, body.name, body.size⟩ uploadState uri) apps
        (modifyApp id (App.addFile version ⟨file, body.name, body.size⟩) apps)
  | put (request : Put) (apps : List App) : Changes (.put request) .done apps apps
  | commit (id version file : ℕ) (info : EncryptionInfo) (apps : List App) :
      Changes (.commit id version file info) .done apps apps
  | patchApp (id version : ℕ) (apps : List App) :
      Changes (.patchApp id version) .done apps (modifyApp id (App.commitVersion version) apps)
  | assign (id : ℕ) (groupId : Text) (filterType : Option Text) (apps : List App)
      (hfilter : filterType = none ∨ filterType = some (text "none")) :
      Changes (.assign id groupId) .done apps (modifyApp id (App.addAssignment groupId filterType) apps)

/-- The replies to a read. What is no part of the apps is not followed here: any reply can come. -/
def Reads (finds : Option Text → Bool) (apps : List App) : Call → Reply → Prop
  | .findApps, .apps ids => ids = (apps.filter fun a => finds a.displayName).map App.id
  | .getApp id, .app a _ _ => a ∈ apps ∧ a.id = id
  | .getAssignments id, .assignments list => ∃ a ∈ apps, a.id = id ∧ list = a.assignments
  | .getVersions id, .versions ids => ∃ a ∈ apps, a.id = id ∧ ids = a.versions.map ContentVersion.id
  | .getFiles id version, .files list =>
    ∃ a ∈ apps, a.id = id ∧ ∃ v ∈ a.versions, v.id = version ∧ list.map Prod.fst = v.files
  | .getFile id version file, .file f _ _ =>
    ∃ a ∈ apps, a.id = id ∧ ∃ v ∈ a.versions, v.id = version ∧ f ∈ v.files ∧ f.id = file
  | .start, .done | .testReceipt, .done | .readReport, .report _ | .utcNow, .instant _ | .shouldProcess, .yes _
  | .connect, .done | .getContext, .context _ | .getGroup, .group _ | .getMembers, .members _
  | .generateKeys, .keys _ | .writeReceipt _, .done | _, .error => True
  | _, _ => False

/-- The replies to a change. A call whose reply is an error may have been carried out. -/
def Answers (call : Call) (before after : List App) (r : Reply) : Prop :=
  Changes call r before after ∨ r = .error ∧ (after = before ∨ ∃ r', Changes call r' before after)

/-- A run's calls are noted with their replies, and changes when they are asked for. `finds` is the filter by the
display name. -/
def effect (finds : Option Text → Bool) (call : Call) (r : Reply) (w w' : World) : Prop :=
  w'.run = (call, r) :: (if call = .start then [] else w.run) ∧
  if call.mutates then
    w'.issued = ⟨call, w.apps, w.run⟩ :: w.issued ∧ Answers call w.apps w'.apps r
  else w'.issued = w.issued ∧ w'.apps = w.apps ∧ Reads finds w.apps call r

end Graph
end Intune.Package
