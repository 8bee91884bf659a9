import AzdSanta.Intune.Profiles
import AzdSanta.Intune.Statuses

/-! `Test-SantaIntuneProfileReport`, on a status report of the profiles. -/
namespace Intune
open Python PowerShell

structure ConfigurationState where
  id : Text
  state : Text

structure DeviceStatus where
  id : Text
  deviceDisplayName : Text
  status : Text
  lastReportedDateTime : Text

structure ReportedProfile where
  id : Text
  objectId : Text
  displayName : Text
  description : Text
  lastModifiedDateTime : Text
  groupIds : List Text
  exactPilotOnly : Bool
  errorCount : ℕ
  failedCount : ℕ
  deviceStatuses : List DeviceStatus

structure PilotGroup where
  id : Text
  displayName : Text
  memberId : Text

structure PilotDevice where
  entraObjectId : Text
  aadDeviceId : Text
  managedDeviceId : Text
  deviceName : Text
  operatingSystem : Text
  configurationStates : List ConfigurationState

structure StatusReport where
  collectedAt : Text
  tenantId : Text
  account : Text
  release : Text
  pilotGroup : PilotGroup
  pilotDevice : PilotDevice
  profiles : List ReportedProfile
  /-- `summary.deliveryReadiness`. -/
  deliveryReadiness : Bool

/-- A profile of the manifest. -/
structure ManifestProfile where
  id : Text
  required : Bool

/-- `$manifest.profiles`, in their order. -/
def manifestProfiles : List ManifestProfile :=
  [⟨text "system-extension", true⟩, ⟨text "tcc", true⟩, ⟨text "service-management", true⟩,
    ⟨text "configuration", true⟩, ⟨text "notifications", false⟩]

/-- `Sort-Object` on strings, which goes by a culture and not by case. -/
structure Sorting where
  same : Text → Text → Bool
  refl : ∀ a, same a a = true
  /-- Printable ASCII differs in more than its case or not at all. -/
  ascii : ∀ a b, a.all isPrintable → b.all isPrintable → same a b = true → a.map lowerAscii = b.map lowerAscii
  sort : List Text → List Text
  perm : ∀ xs, (sort xs).Perm xs
  /-- Without ties there is one order. -/
  determined : ∀ xs ys, xs.Perm ys → (∀ a ∈ xs, ∀ b ∈ xs, same a b = true → a = b) → sort xs = sort ys
  /-- With `-Unique`. -/
  unique : List Text → List Text
  unique_subset : ∀ xs, unique xs ⊆ xs
  unique_apart : ∀ xs, (unique xs).Pairwise fun a b => same a b = false
  unique_cover : ∀ xs, ∀ a ∈ xs, ∃ b ∈ unique xs, same a b = true

/-- A character that stands for itself in a pattern of `-like`. -/
def isPlain (c : ℕ) : Bool := c ≠ 42 && c ≠ 63 && c ≠ 91 && c ≠ 93 && c ≠ 96

/-- What the function uses of its language. -/
structure Inspector where
  comparison : Comparison
  sorting : Sorting
  /-- `-imatch '^(succeeded|remediated)$'`. -/
  delivered : Text → Bool
  delivered_ascii : ∀ s, s.all isPrintable →
    (delivered s = true ↔ s.map lowerAscii ∈ [text "succeeded", text "remediated"])
  /-- `-clike`, of a text and a pattern. -/
  clike : Text → Text → Bool
  clike_suffix : ∀ s t, t.all isPlain → (clike s (42 :: t) = true ↔ t <:+ s)
  /-- `[DateTimeOffset]`; `none` when it throws. -/
  dateTimeOffset : Text → Option ℤ

/-- `[int]`. -/
def int32 (n : ℕ) : Option ℕ := if n < 2 ^ 31 then some n else none

/-- `"profile:$id:$what"`. -/
def profileFailure (spec : ManifestProfile) (what : Text) : Text := text "profile:" ++ spec.id ++ 58 :: what

def expectedName (spec : ManifestProfile) : Text := text "Santa " ++ releaseTag ++ text " - " ++ spec.id

def expectedDescription (spec : ManifestProfile) : Text :=
  text "[azd-santa:" ++ releaseTag ++ 58 :: spec.id ++ text "] Template-owned Intune profile."

/-- What the loop over the manifest has found. -/
structure Findings where
  failures : List Text
  assignmentProven : Bool
  requiredProfilesDelivered : Bool
  profileStatusRowCount : ℕ

def Findings.unassigned (f : Findings) (failure : Text) : Findings :=
  { f with failures := f.failures ++ [failure], assignmentProven := false }

def Findings.undelivered (f : Findings) (failure : Text) : Findings :=
  { f with failures := f.failures ++ [failure], requiredProfilesDelivered := false }

structure Readiness where
  assignmentProven : Bool
  pilotDeviceBound : Bool
  pilotDeviceConfigurationStateCount : ℕ
  profileStatusRowCount : ℕ
  requiredProfilesDelivered : Bool
  deliveryReadiness : Bool
  failures : List Text

section Function
variable (i : Inspector) (r : StatusReport)

/-- `$pilotDeviceBound`. -/
def isPilotDeviceBound : Bool :=
  i.comparison.ceq r.pilotGroup.memberId r.pilotDevice.entraObjectId && !r.pilotDevice.aadDeviceId.all isWhiteSpace &&
    !r.pilotDevice.managedDeviceId.all isWhiteSpace && i.comparison.eq r.pilotDevice.operatingSystem (text "macOS")

def isOwned (spec : ManifestProfile) (p : ReportedProfile) : Bool :=
  i.comparison.ceq p.displayName (expectedName spec) && i.comparison.ceq p.description (expectedDescription spec)

def isAssigned (p : ReportedProfile) : Bool :=
  p.exactPilotOnly && match i.sorting.unique p.groupIds with
    | [g] => i.comparison.ceq g r.pilotGroup.id
    | _ => false

/-- `$deviceStateMatches`. -/
def deviceStates (p : ReportedProfile) : List ConfigurationState :=
  r.pilotDevice.configurationStates.filter fun s => i.comparison.eq s.id p.objectId

/-- `$statusSuffix`. -/
def statusSuffix (p : ReportedProfile) : Text := 95 :: p.objectId ++ 95 :: r.pilotDevice.managedDeviceId

/-- `$pilotRows`. -/
def pilotRows (p : ReportedProfile) : List DeviceStatus :=
  p.deviceStatuses.filter fun row => i.clike row.id (42 :: statusSuffix r p) &&
    i.comparison.ceq row.deviceDisplayName r.pilotDevice.deviceName

/-- Whether the overview counts an error or a failure. -/
def hasErrors (p : ReportedProfile) : Option Bool := do
  if 0 < (← int32 p.errorCount) then return true
  else return decide (0 < (← int32 p.failedCount))

/-- Whether there is no fresh status of the pilot device. -/
def isStale (p : ReportedProfile) : Option Bool :=
  match pilotRows i r p with
  | [row] =>
    if i.delivered row.status then do
      let reported ← i.dateTimeOffset row.lastReportedDateTime
      let modified ← i.dateTimeOffset p.lastModifiedDateTime
      return decide (reported < modified)
    else some true
  | _ => some true

/-- The checks of a required profile. -/
def inspectDelivery (f : Findings) (spec : ManifestProfile) (p : ReportedProfile) : Option Findings := do
  let f := match deviceStates i r p with
    | [s] => if i.delivered s.state then f else f.undelivered (profileFailure spec s.state)
    | _ => f.undelivered (profileFailure spec (text "pilot-device-state"))
  let f := if ← hasErrors p then f.undelivered (profileFailure spec (text "overview")) else f
  return if ← isStale i r p then f.undelivered (profileFailure spec (text "fresh-device-status")) else f

/-- One round of the loop over the manifest. -/
def inspectProfile (f : Findings) (spec : ManifestProfile) : Option Findings :=
  match r.profiles.filter fun p => i.comparison.eq p.id spec.id with
  | [p] =>
    let f := if isOwned i spec p then f else f.unassigned (profileFailure spec (text "ownership"))
    let f := if isAssigned i r p then f else f.unassigned (profileFailure spec (text "assignment"))
    let f := { f with profileStatusRowCount := f.profileStatusRowCount + p.deviceStatuses.length }
    if spec.required then inspectDelivery i r f spec p else some f
  | _ => some { f with
      assignmentProven := false
      requiredProfilesDelivered := f.requiredProfilesDelivered && !spec.required }

/-- What is checked before the loop. -/
def openingFailures : List Text :=
  let expectedIds := manifestProfiles.map ManifestProfile.id
  let actualIds := r.profiles.map ReportedProfile.id
  (if i.comparison.ceq ([124].intercalate (i.sorting.sort expectedIds)) ([124].intercalate (i.sorting.sort actualIds)) then []
    else [text "profiles:exact-set"]) ++
  (if (i.sorting.unique actualIds).length = expectedIds.length then [] else [text "profiles:unique"]) ++
  (if i.comparison.ceq r.release releaseTag then [] else [text "release:lock"]) ++
  if isPilotDeviceBound i r then [] else [text "pilot-device:binding"]

/-- `Test-SantaIntuneProfileReport`; `none` when it throws. -/
def testSantaIntuneProfileReport : Option Readiness := do
  let f ← manifestProfiles.foldlM (inspectProfile i r) ⟨openingFailures i r, true, true, 0⟩
  return {
    assignmentProven := f.assignmentProven
    pilotDeviceBound := isPilotDeviceBound i r
    pilotDeviceConfigurationStateCount := r.pilotDevice.configurationStates.length
    profileStatusRowCount := f.profileStatusRowCount
    requiredProfilesDelivered := f.requiredProfilesDelivered
    deliveryReadiness := f.assignmentProven && isPilotDeviceBound i r && f.requiredProfilesDelivered && f.failures.isEmpty
    failures := f.failures }

end Function
end Intune
