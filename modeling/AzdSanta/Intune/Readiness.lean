import AzdSanta.Common.Sorting
import AzdSanta.Intune.Report

/-! A report is ready when everything in it is as it should be, in whatever order it lists things. -/
namespace Intune
open Python PowerShell

section Meaning
variable (i : Inspector) (r : StatusReport)

/-- What the schema says of the ids in a report: those of profiles are from a list, the others are UUIDs. -/
structure Schema : Prop where
  ids : ∀ p ∈ r.profiles, p.id ∈ manifestProfiles.map ManifestProfile.id
  objectIds : ∀ p ∈ r.profiles, p.objectId.all isPlain = true
  managedDeviceId : r.pilotDevice.managedDeviceId.all isPlain = true

/-- The rows of the pilot device for this profile. -/
def ownRows (p : ReportedProfile) : List DeviceStatus :=
  p.deviceStatuses.filter fun row => decide (statusSuffix r p <:+ row.id) &&
    i.comparison.ceq row.deviceDisplayName r.pilotDevice.deviceName

/-- The profile is that of the manifest, and assigned to the pilot group alone. -/
structure AssignedToPilot (spec : ManifestProfile) (p : ReportedProfile) : Prop where
  displayName : i.comparison.ceq p.displayName (expectedName spec) = true
  description : i.comparison.ceq p.description (expectedDescription spec) = true
  exactPilotOnly : p.exactPilotOnly = true
  group : ∃ g, i.sorting.unique p.groupIds = [g] ∧ i.comparison.ceq g r.pilotGroup.id = true

/-- It has reached the pilot device, as the device has said since the last change of the profile. -/
structure DeliveredToPilot (p : ReportedProfile) : Prop where
  state : ∃ s, deviceStates i r p = [s] ∧ i.delivered s.state = true
  errorCount : p.errorCount = 0
  failedCount : p.failedCount = 0
  status : ∃ row reported modified, ownRows i r p = [row] ∧ i.delivered row.status = true ∧
    i.dateTimeOffset row.lastReportedDateTime = some reported ∧
    i.dateTimeOffset p.lastModifiedDateTime = some modified ∧ modified ≤ reported

def Satisfied (spec : ManifestProfile) (p : ReportedProfile) : Prop :=
  AssignedToPilot i r spec p ∧ (spec.required = true → DeliveredToPilot i r p)

structure Ready : Prop where
  profiles : (r.profiles.map ReportedProfile.id).Perm (manifestProfiles.map ManifestProfile.id)
  release : i.comparison.ceq r.release releaseTag = true
  member : i.comparison.ceq r.pilotGroup.memberId r.pilotDevice.entraObjectId = true
  aadDeviceId : ¬ r.pilotDevice.aadDeviceId.all isWhiteSpace
  managedDeviceId : ¬ r.pilotDevice.managedDeviceId.all isWhiteSpace
  operatingSystem : i.comparison.eq r.pilotDevice.operatingSystem (text "macOS") = true
  each : ∀ spec ∈ manifestProfiles, ∀ p ∈ r.profiles, p.id = spec.id → Satisfied i r spec p

end Meaning

section Tallies
variable {f f' f'' : Findings} {c c' : Prop}

/-- The findings have grown by failures, by none just when all was well. -/
def Tally (c : Prop) (f f' : Findings) : Prop :=
  ∃ new, f'.failures = f.failures ++ new ∧ (new = [] ↔ c) ∧
    (c → f'.assignmentProven = f.assignmentProven ∧ f'.requiredProfilesDelivered = f.requiredProfilesDelivered)

theorem Tally.refl (f : Findings) : Tally True f f := ⟨[], by simp, by simp, fun _ => ⟨rfl, rfl⟩⟩

theorem Tally.trans (h : Tally c f f') (h' : Tally c' f' f'') : Tally (c ∧ c') f f'' := by
  obtain ⟨new, hnew, hok, hflags⟩ := h
  obtain ⟨new', hnew', hok', hflags'⟩ := h'
  refine ⟨new ++ new', ?_, ?_, fun hboth => ?_⟩
  · rw [hnew', hnew, List.append_assoc]
  · rw [List.append_eq_nil_iff, hok, hok']
  · rw [(hflags' hboth.2).1, (hflags' hboth.2).2]
    exact hflags hboth.1

theorem Tally.congr (h : Tally c f f') (hok : c ↔ c') : Tally c' f f' := by
  obtain ⟨new, hnew, hnil, hflags⟩ := h
  exact ⟨new, hnew, hnil.trans hok, fun h => hflags (hok.mpr h)⟩

theorem tally_unassigned [Decidable c] (f : Findings) (failure : Text) :
    Tally c f (if c then f else f.unassigned failure) := by
  split_ifs with h
  · exact (Tally.refl f).congr (by simp [h])
  · exact ⟨[failure], rfl, by simp [h], fun hok => absurd hok h⟩

theorem tally_undelivered [Decidable c] (f : Findings) (failure : Text) :
    Tally c f (if c then f else f.undelivered failure) := by
  split_ifs with h
  · exact (Tally.refl f).congr (by simp [h])
  · exact ⟨[failure], rfl, by simp [h], fun hok => absurd hok h⟩

theorem tally_unless {b : Bool} (h : b = false ↔ c) (f : Findings) (failure : Text) :
    Tally c f (if b then f.undelivered failure else f) := by
  cases b with
  | false => exact (Tally.refl f).congr (by simp [h.mp rfl])
  | true => exact ⟨[failure], rfl, by simp [← h], fun hc => Bool.noConfusion (h.mpr hc)⟩

theorem Tally.counted (h : Tally c f f') (count : ℕ) : Tally c f { f' with profileStatusRowCount := count } := h

end Tallies

section Checks
variable {i : Inspector} {r : StatusReport} {spec : ManifestProfile} {p : ReportedProfile} {f f' : Findings}

theorem isOwned_iff : isOwned i spec p = true ↔
    i.comparison.ceq p.displayName (expectedName spec) = true ∧
      i.comparison.ceq p.description (expectedDescription spec) = true := by
  simp [isOwned]

theorem isAssigned_iff : isAssigned i r p = true ↔
    p.exactPilotOnly = true ∧ ∃ g, i.sorting.unique p.groupIds = [g] ∧ i.comparison.ceq g r.pilotGroup.id = true := by
  rw [isAssigned, Bool.and_eq_true]
  refine and_congr_right fun _ => ?_
  split
  · next g hg => simp [hg]
  · next hnot =>
    simp only [Bool.false_eq_true, false_iff, not_exists, not_and]
    exact fun g hg => absurd hg (hnot g)

/-- The suffix is taken as it is. -/
theorem pilotRows_eq (hobject : p.objectId.all isPlain = true)
    (hmanaged : r.pilotDevice.managedDeviceId.all isPlain = true) : pilotRows i r p = ownRows i r p := by
  have hplain : (statusSuffix r p).all isPlain = true := by
    simp only [statusSuffix, List.cons_append, List.all_cons, List.all_append, hobject, hmanaged]
    decide
  have hlike (row : DeviceStatus) :
      i.clike row.id (42 :: statusSuffix r p) = decide (statusSuffix r p <:+ row.id) := by
    rw [Bool.eq_iff_iff, i.clike_suffix _ _ hplain, decide_eq_true_eq]
  unfold pilotRows ownRows
  simp only [hlike]

theorem int32_eq_some {n m : ℕ} (h : int32 n = some m) : m = n := by
  unfold int32 at h
  split_ifs at h
  exact (Option.some.inj h).symm

theorem hasErrors_eq_some {b : Bool} (h : hasErrors p = some b) : b = false ↔ p.errorCount = 0 ∧ p.failedCount = 0 := by
  simp only [hasErrors, Option.bind_eq_bind, Option.bind_eq_some_iff] at h
  obtain ⟨errors, herrors, h⟩ := h
  obtain rfl := int32_eq_some herrors
  split_ifs at h with hpos
  · obtain rfl := Option.some.inj h
    simp only [Bool.true_eq_false, false_iff, not_and]
    omega
  · simp only [Option.bind_eq_some_iff] at h
    obtain ⟨failed, hfailed, h⟩ := h
    obtain rfl := int32_eq_some hfailed
    obtain rfl := Option.some.inj h
    rw [decide_eq_false_iff_not]
    omega

theorem hasErrors_clean (herror : p.errorCount = 0) (hfailed : p.failedCount = 0) : hasErrors p = some false := by
  rw [hasErrors, herror, hfailed]
  rfl

/-- There is a status row of the device, with a good state that is not older than the profile. -/
def Fresh (i : Inspector) (r : StatusReport) (p : ReportedProfile) : Prop :=
  ∃ row reported modified, pilotRows i r p = [row] ∧ i.delivered row.status = true ∧
    i.dateTimeOffset row.lastReportedDateTime = some reported ∧
    i.dateTimeOffset p.lastModifiedDateTime = some modified ∧ modified ≤ reported

theorem isStale_eq_some {b : Bool} (h : isStale i r p = some b) : b = false ↔ Fresh i r p := by
  unfold isStale at h
  unfold Fresh
  split at h
  · next row hrow =>
    split_ifs at h with hstatus
    · simp only [Option.bind_eq_bind, Option.bind_eq_some_iff] at h
      obtain ⟨reported, hreported, modified, hmodified, h⟩ := h
      obtain rfl := Option.some.inj h
      rw [decide_eq_false_iff_not, not_lt]
      constructor
      · intro hle
        exact ⟨row, reported, modified, hrow, hstatus, hreported, hmodified, hle⟩
      · rintro ⟨row', reported', modified', hrow', -, hreported', hmodified', hle⟩
        obtain rfl := List.singleton_inj.mp (hrow.symm.trans hrow')
        obtain rfl := Option.some.inj (hreported.symm.trans hreported')
        obtain rfl := Option.some.inj (hmodified.symm.trans hmodified')
        exact hle
    · obtain rfl := Option.some.inj h
      simp only [Bool.true_eq_false, false_iff]
      rintro ⟨row', -, -, hrow', hstatus', -⟩
      obtain rfl := List.singleton_inj.mp (hrow.symm.trans hrow')
      exact hstatus hstatus'
  · next hnot =>
    obtain rfl := Option.some.inj h
    simp only [Bool.true_eq_false, false_iff]
    rintro ⟨row, -, -, hrow, -⟩
    exact hnot row hrow

theorem isStale_fresh (h : Fresh i r p) : isStale i r p = some false := by
  obtain ⟨row, reported, modified, hrow, hstatus, hreported, hmodified, hle⟩ := h
  unfold isStale
  rw [hrow]
  simp only [hstatus, if_true, hreported, hmodified, Option.bind_eq_bind, Option.bind_some, Option.pure_def]
  rw [decide_eq_false (not_lt.mpr hle)]

/-- The state of the device is there once and good. -/
def HasState (i : Inspector) (r : StatusReport) (p : ReportedProfile) : Prop :=
  ∃ s, deviceStates i r p = [s] ∧ i.delivered s.state = true

theorem tally_state (f : Findings) : Tally (HasState i r p) f (match deviceStates i r p with
    | [s] => if i.delivered s.state then f else f.undelivered (profileFailure spec s.state)
    | _ => f.undelivered (profileFailure spec (text "pilot-device-state"))) := by
  unfold HasState
  split
  · next s hs =>
    exact (tally_undelivered f _).congr (by simp [hs])
  · next hnot =>
    refine ⟨[_], rfl, ?_, ?_⟩
    · simp only [List.cons_ne_nil, false_iff, not_exists, not_and]
      exact fun s hs => absurd hs (hnot s)
    · rintro ⟨s, hs, -⟩
      exact absurd hs (hnot s)

theorem inspectDelivery_tally (h : inspectDelivery i r f spec p = some f') :
    Tally (HasState i r p ∧ (p.errorCount = 0 ∧ p.failedCount = 0) ∧ Fresh i r p) f f' := by
  simp only [inspectDelivery, Option.bind_eq_bind, Option.bind_eq_some_iff, Option.pure_def, Option.some.injEq] at h
  obtain ⟨errors, herrors, stale, hstale, rfl⟩ := h
  exact (((tally_state f).trans (tally_unless (hasErrors_eq_some herrors) _ _)).trans
    (tally_unless (isStale_eq_some hstale) _ _)).congr and_assoc

theorem inspectDelivery_total (hoverview : p.errorCount = 0 ∧ p.failedCount = 0) (hfresh : Fresh i r p) :
    ∃ f', inspectDelivery i r f spec p = some f' := by
  rw [inspectDelivery, hasErrors_clean hoverview.1 hoverview.2, isStale_fresh hfresh]
  exact ⟨_, rfl⟩

theorem deliveredToPilot_iff (hschema : Schema r) (hp : p ∈ r.profiles) :
    DeliveredToPilot i r p ↔ HasState i r p ∧ (p.errorCount = 0 ∧ p.failedCount = 0) ∧ Fresh i r p := by
  rw [Fresh, pilotRows_eq (hschema.objectIds p hp) hschema.managedDeviceId]
  constructor
  · intro h
    exact ⟨h.state, ⟨h.errorCount, h.failedCount⟩, h.status⟩
  · rintro ⟨hstate, ⟨herror, hfailed⟩, hstatus⟩
    exact ⟨hstate, herror, hfailed, hstatus⟩

theorem assignedToPilot_iff : AssignedToPilot i r spec p ↔ isOwned i spec p = true ∧ isAssigned i r p = true := by
  rw [isOwned_iff, isAssigned_iff]
  constructor
  · intro h
    exact ⟨⟨h.displayName, h.description⟩, h.exactPilotOnly, h.group⟩
  · rintro ⟨⟨hname, hdescription⟩, hexact, hgroup⟩
    exact ⟨hname, hdescription, hexact, hgroup⟩

/-- A round that finds one profile. -/
theorem inspectProfile_tally (hschema : Schema r) (hp : p ∈ r.profiles)
    (hone : (r.profiles.filter fun p => i.comparison.eq p.id spec.id) = [p])
    (h : inspectProfile i r f spec = some f') : Tally (Satisfied i r spec p) f f' := by
  have hassigned (count : ℕ) := (((tally_unassigned (c := isOwned i spec p = true) f
    (profileFailure spec (text "ownership"))).trans (tally_unassigned (c := isAssigned i r p = true) _
      (profileFailure spec (text "assignment")))).congr assignedToPilot_iff.symm).counted count
  simp only [inspectProfile, hone] at h
  by_cases hrequired : spec.required = true
  · rw [if_pos hrequired] at h
    have hdelivered := (inspectDelivery_tally h).congr (deliveredToPilot_iff hschema hp).symm
    exact ((hassigned _).trans hdelivered).congr (by simp [Satisfied, hrequired])
  · rw [if_neg hrequired] at h
    obtain rfl := Option.some.inj h
    exact (hassigned _).congr (by simp [Satisfied, hrequired])

theorem inspectProfile_total (hschema : Schema r) (hp : p ∈ r.profiles)
    (hone : (r.profiles.filter fun p => i.comparison.eq p.id spec.id) = [p]) (h : Satisfied i r spec p) :
    ∃ f', inspectProfile i r f spec = some f' := by
  simp only [inspectProfile, hone]
  by_cases hrequired : spec.required = true
  · rw [if_pos hrequired]
    obtain ⟨-, hoverview, hfresh⟩ := (deliveredToPilot_iff hschema hp).mp (h.2 hrequired)
    exact inspectDelivery_total hoverview hfresh
  · rw [if_neg hrequired]
    exact ⟨_, rfl⟩

end Checks
section Names
variable {i : Inspector} {r : StatusReport}

theorem manifest_names : ∀ a ∈ manifestProfiles.map ManifestProfile.id, a.all isPrintable = true ∧ 124 ∉ a ∧ a ≠ [] ∧
    ∀ b ∈ manifestProfiles.map ManifestProfile.id, a.map lowerAscii = b.map lowerAscii → a = b := by
  decide

theorem manifest_nodup : (manifestProfiles.map ManifestProfile.id).Nodup := by decide

/-- Ids of the manifest are the same to an operator only where they are. -/
theorem id_of_eq {a b : Text} (ha : a ∈ manifestProfiles.map ManifestProfile.id)
    (hb : b ∈ manifestProfiles.map ManifestProfile.id) (h : i.comparison.eq a b = true) : a = b := by
  obtain ⟨hprint, -, -, happart⟩ := manifest_names a ha
  exact happart b hb (i.comparison.ascii a b hprint (manifest_names b hb).1 h)

theorem id_of_same {a b : Text} (ha : a ∈ manifestProfiles.map ManifestProfile.id)
    (hb : b ∈ manifestProfiles.map ManifestProfile.id) (h : i.sorting.same a b = true) : a = b := by
  obtain ⟨hprint, -, -, happart⟩ := manifest_names a ha
  exact happart b hb (i.sorting.ascii a b hprint (manifest_names b hb).1 h)

theorem schema_ids (hschema : Schema r) :
    ∀ a ∈ r.profiles.map ReportedProfile.id, a ∈ manifestProfiles.map ManifestProfile.id := by
  intro a ha
  obtain ⟨p, hp, rfl⟩ := List.mem_map.mp ha
  exact hschema.ids p hp

theorem ids_ties (hschema : Schema r) : ∀ a ∈ r.profiles.map ReportedProfile.id,
    ∀ b ∈ r.profiles.map ReportedProfile.id, i.sorting.same a b = true → a = b :=
  fun a ha b hb => id_of_same (schema_ids hschema a ha) (schema_ids hschema b hb)

theorem exactSet_iff (hschema : Schema r) :
    i.comparison.ceq ([124].intercalate (i.sorting.sort (manifestProfiles.map ManifestProfile.id)))
        ([124].intercalate (i.sorting.sort (r.profiles.map ReportedProfile.id))) = true ↔
      (r.profiles.map ReportedProfile.id).Perm (manifestProfiles.map ManifestProfile.id) := by
  have hids := schema_ids hschema
  have hsorted {xs : List Text} (hxs : ∀ a ∈ xs, a ∈ manifestProfiles.map ManifestProfile.id) :
      ∀ a ∈ i.sorting.sort xs, a ∈ manifestProfiles.map ManifestProfile.id :=
    fun a ha => hxs a ((i.sorting.perm xs).mem_iff.mp ha)
  have hprint {xs : List Text} (hxs : ∀ a ∈ xs, a ∈ manifestProfiles.map ManifestProfile.id) :
      ([124].intercalate xs).all isPrintable = true := by
    apply List.all_eq_true.mpr
    intro c hc
    rcases mem_intercalate hc with rfl | ⟨a, ha, hc⟩
    · rfl
    · exact List.all_eq_true.mp (manifest_names a (hxs a ha)).1 c hc
  constructor
  · intro h
    have hjoined := i.comparison.cascii _ _ (hprint (hsorted fun _ ha => ha)) (hprint (hsorted hids)) h
    have hexpected : i.sorting.sort (manifestProfiles.map ManifestProfile.id) ≠ [] := by
      intro hnil
      have hperm := i.sorting.perm (manifestProfiles.map ManifestProfile.id)
      rw [hnil] at hperm
      exact absurd hperm.nil_eq (by decide)
    have hbar {xs : List Text} (hxs : ∀ a ∈ xs, a ∈ manifestProfiles.map ManifestProfile.id) :
        ∀ a ∈ xs, 124 ∉ a := fun a ha => (manifest_names a (hxs a ha)).2.1
    have hactual : i.sorting.sort (r.profiles.map ReportedProfile.id) ≠ [] := by
      intro hnil
      rw [hnil, List.intercalate_nil] at hjoined
      have hsplit := List.splitOn_intercalate 124 (hbar (hsorted fun _ ha => ha)) hexpected
      rw [hjoined] at hsplit
      have hempty : [] ∈ i.sorting.sort (manifestProfiles.map ManifestProfile.id) := by
        rw [← hsplit]
        simp
      exact (manifest_names [] (hsorted (fun _ ha => ha) [] hempty)).2.2.1 rfl
    have hsame := intercalate_injective (hbar (hsorted fun _ ha => ha)) (hbar (hsorted hids)) hexpected hactual hjoined
    have hperm := i.sorting.perm (r.profiles.map ReportedProfile.id)
    rw [← hsame] at hperm
    exact hperm.symm.trans (i.sorting.perm _)
  · intro hperm
    rw [i.sorting.determined _ _ hperm (ids_ties hschema)]
    exact i.comparison.crefl _

section Unique
variable {xs ys : List Text} (hties : ∀ a ∈ xs, ∀ b ∈ xs, i.sorting.same a b = true → a = b)
include hties

/-- Without ties nothing is lost. -/
theorem mem_unique {a : Text} : a ∈ i.sorting.unique xs ↔ a ∈ xs := by
  constructor
  · intro ha
    exact i.sorting.unique_subset xs ha
  · intro ha
    obtain ⟨b, hb, hsame⟩ := i.sorting.unique_cover xs a ha
    rw [hties a ha b (i.sorting.unique_subset xs hb) hsame]
    exact hb

omit hties in
theorem unique_nodup : (i.sorting.unique xs).Nodup := by
  refine (i.sorting.unique_apart xs).imp fun {a b} happart => ?_
  rintro rfl
  rw [i.sorting.refl] at happart
  cases happart

theorem unique_perm (hperm : xs.Perm ys) : (i.sorting.unique xs).Perm (i.sorting.unique ys) := by
  have hties' : ∀ a ∈ ys, ∀ b ∈ ys, i.sorting.same a b = true → a = b :=
    fun a ha b hb => hties a (hperm.mem_iff.mpr ha) b (hperm.mem_iff.mpr hb)
  apply (List.perm_ext_iff_of_nodup unique_nodup unique_nodup).mpr
  intro a
  rw [mem_unique hties, mem_unique hties', hperm.mem_iff]

theorem unique_of_nodup (hnodup : xs.Nodup) : (i.sorting.unique xs).Perm xs :=
  (List.perm_ext_iff_of_nodup unique_nodup hnodup).mpr fun _ => mem_unique hties

end Unique

theorem openingFailures_eq_nil (hschema : Schema r) : openingFailures i r = [] ↔
    (r.profiles.map ReportedProfile.id).Perm (manifestProfiles.map ManifestProfile.id) ∧
      i.comparison.ceq r.release releaseTag = true ∧ isPilotDeviceBound i r = true := by
  have hset := @exactSet_iff i r hschema
  simp only [openingFailures, List.append_eq_nil_iff, ite_eq_left_iff, List.cons_ne_nil, imp_false, not_not]
  rw [hset]
  constructor
  · rintro ⟨⟨⟨hperm, -⟩, hrelease⟩, hbound⟩
    exact ⟨hperm, hrelease, hbound⟩
  · rintro ⟨hperm, hrelease, hbound⟩
    have hunique := (unique_of_nodup (ids_ties (i := i) hschema) (hperm.nodup_iff.mpr manifest_nodup)).trans hperm
    exact ⟨⟨⟨hperm, hunique.length_eq⟩, hrelease⟩, hbound⟩

/-- Every id of the manifest has one profile. -/
theorem one_profile (hschema : Schema r)
    (hperm : (r.profiles.map ReportedProfile.id).Perm (manifestProfiles.map ManifestProfile.id)) {spec : ManifestProfile}
    (hspec : spec ∈ manifestProfiles) : ∃ p ∈ r.profiles, p.id = spec.id ∧
      (r.profiles.filter fun p => i.comparison.eq p.id spec.id) = [p] := by
  have hid := List.mem_map_of_mem (f := ManifestProfile.id) hspec
  obtain ⟨p, hp, hpid⟩ := List.mem_map.mp (hperm.mem_iff.mpr hid)
  refine ⟨p, hp, hpid, ?_⟩
  have hnodup : (r.profiles.map ReportedProfile.id).Nodup := hperm.nodup_iff.mpr manifest_nodup
  have hmem (q : ReportedProfile) : q ∈ (r.profiles.filter fun p => i.comparison.eq p.id spec.id) ↔ q = p := by
    rw [List.mem_filter]
    constructor
    · rintro ⟨hq, heq⟩
      have hqid := id_of_eq (hschema.ids q hq) hid heq
      exact List.inj_on_of_nodup_map hnodup hq hp (hqid.trans hpid.symm)
    · rintro rfl
      rw [hpid]
      exact ⟨hp, i.comparison.refl _⟩
  have hnodup' := (hnodup.of_map _).filter fun p => i.comparison.eq p.id spec.id
  exact List.perm_singleton.mp ((List.perm_ext_iff_of_nodup hnodup' (List.nodup_singleton p)).mpr (by simpa using hmem))

end Names

section Loop
variable {i : Inspector} {r : StatusReport} {f f' : Findings} {specs : List ManifestProfile}

/-- The loop over the manifest, where every id has one profile. -/
theorem loop_tally (hschema : Schema r)
    (hperm : (r.profiles.map ReportedProfile.id).Perm (manifestProfiles.map ManifestProfile.id))
    (hspecs : ∀ spec ∈ specs, spec ∈ manifestProfiles) (h : specs.foldlM (inspectProfile i r) f = some f') :
    Tally (∀ spec ∈ specs, ∀ p ∈ r.profiles, p.id = spec.id → Satisfied i r spec p) f f' := by
  induction specs generalizing f with
  | nil =>
    obtain rfl := Option.some.inj h
    exact (Tally.refl f).congr (by simp)
  | cons spec specs ih =>
    rw [List.foldlM_cons, Option.bind_eq_bind, Option.bind_eq_some_iff] at h
    obtain ⟨f₁, hfirst, hrest⟩ := h
    obtain ⟨hspec, hspecs⟩ := List.forall_mem_cons.mp hspecs
    obtain ⟨p, hp, hid, hone⟩ := @one_profile i r hschema hperm spec hspec
    have hsame : Satisfied i r spec p ↔ ∀ p ∈ r.profiles, p.id = spec.id → Satisfied i r spec p := by
      constructor
      · intro hsatisfied q hq hqid
        have hmem : q ∈ r.profiles.filter fun p => i.comparison.eq p.id spec.id :=
          List.mem_filter.mpr ⟨hq, hqid ▸ i.comparison.refl _⟩
        rw [hone] at hmem
        rw [List.mem_singleton.mp hmem]
        exact hsatisfied
      · exact fun hall => hall p hp hid
    rw [List.forall_mem_cons]
    exact ((inspectProfile_tally hschema hp hone hfirst).congr hsame).trans (ih hspecs hrest)

theorem loop_total (hschema : Schema r)
    (hperm : (r.profiles.map ReportedProfile.id).Perm (manifestProfiles.map ManifestProfile.id))
    (hspecs : ∀ spec ∈ specs, spec ∈ manifestProfiles)
    (hall : ∀ spec ∈ specs, ∀ p ∈ r.profiles, p.id = spec.id → Satisfied i r spec p) :
    ∃ f', specs.foldlM (inspectProfile i r) f = some f' := by
  induction specs generalizing f with
  | nil => exact ⟨f, rfl⟩
  | cons spec specs ih =>
    obtain ⟨hspec, hspecs⟩ := List.forall_mem_cons.mp hspecs
    obtain ⟨hfirst, hall⟩ := List.forall_mem_cons.mp hall
    obtain ⟨p, hp, hid, hone⟩ := @one_profile i r hschema hperm spec hspec
    obtain ⟨f₁, hfirst⟩ := @inspectProfile_total i r spec p f hschema hp hone (hfirst p hp hid)
    rw [List.foldlM_cons, hfirst]
    exact ih hspecs hall

/-- A failure stays. -/
theorem inspectProfile_keeps (hschema : Schema r) {spec : ManifestProfile} (h : inspectProfile i r f spec = some f')
    (hfailed : f.failures ≠ []) : f'.failures ≠ [] := by
  rcases hmatches : r.profiles.filter fun p => i.comparison.eq p.id spec.id with _ | ⟨p, _ | ⟨q, rest⟩⟩
  · simp only [inspectProfile, hmatches] at h
    obtain rfl := Option.some.inj h
    exact hfailed
  · have hp : p ∈ r.profiles := by
      apply List.mem_of_mem_filter (p := fun p => i.comparison.eq p.id spec.id)
      rw [hmatches]
      exact List.mem_singleton_self p
    obtain ⟨new, hnew, -⟩ := inspectProfile_tally hschema hp hmatches h
    rw [hnew]
    exact List.append_ne_nil_of_left_ne_nil hfailed new
  · simp only [inspectProfile, hmatches] at h
    obtain rfl := Option.some.inj h
    exact hfailed

theorem loop_keeps (hschema : Schema r) (h : specs.foldlM (inspectProfile i r) f = some f')
    (hfailed : f.failures ≠ []) : f'.failures ≠ [] := by
  induction specs generalizing f with
  | nil =>
    obtain rfl := Option.some.inj h
    exact hfailed
  | cons spec specs ih =>
    rw [List.foldlM_cons, Option.bind_eq_bind, Option.bind_eq_some_iff] at h
    obtain ⟨f₁, hfirst, hrest⟩ := h
    exact ih hrest (inspectProfile_keeps hschema hfirst hfailed)

end Loop

section Order
variable {i : Inspector} {r r' : StatusReport}

/-- Two accounts of a profile with their group ids and rows in different orders. No two of the group ids are told
apart by nothing but what `Sort-Object` does not see. -/
def SameProfile (i : Inspector) (p p' : ReportedProfile) : Prop :=
  ∃ groupIds deviceStatuses, p' = { p with groupIds := groupIds, deviceStatuses := deviceStatuses } ∧
    p.groupIds.Perm groupIds ∧ p.deviceStatuses.Perm deviceStatuses ∧
    ∀ a ∈ p.groupIds, ∀ b ∈ p.groupIds, i.sorting.same a b = true → a = b

/-- A report that lists the same in another order. -/
def Reordered (i : Inspector) (r r' : StatusReport) : Prop :=
  ∃ same profiles states, List.Forall₂ (SameProfile i) r.profiles same ∧ same.Perm profiles ∧
    r.pilotDevice.configurationStates.Perm states ∧
    r' = { r with profiles := profiles, pilotDevice := { r.pilotDevice with configurationStates := states } }

/-- What is alone is so in every order. -/
theorem alone_or_not {α : Type} {xs ys : List α} (h : xs.Perm ys) :
    (∃ x, xs = [x] ∧ ys = [x]) ∨ (∀ x, xs ≠ [x]) ∧ ∀ y, ys ≠ [y] := by
  by_cases hone : ∃ x, xs = [x]
  · obtain ⟨x, rfl⟩ := hone
    exact Or.inl ⟨x, rfl, List.perm_singleton.mp h.symm⟩
  · refine Or.inr ⟨fun x hx => hone ⟨x, hx⟩, fun y hy => ?_⟩
    subst hy
    exact hone ⟨y, List.perm_singleton.mp h⟩

theorem isAssigned_same {p p' : ReportedProfile} (h : SameProfile i p p')
    (hgroup : r'.pilotGroup = r.pilotGroup) : isAssigned i r' p' = isAssigned i r p := by
  obtain ⟨groupIds, deviceStatuses, rfl, hgroups, -, hties⟩ := h
  rw [isAssigned, isAssigned, hgroup]
  rcases alone_or_not (unique_perm hties hgroups) with ⟨g, hg, hg'⟩ | ⟨hnot, hnot'⟩
  · simp only [hg, hg']
  · congr 1
    split
    · next g hg => exact absurd hg (hnot' g)
    · rfl

theorem isStale_same {p p' : ReportedProfile} (h : (pilotRows i r p).Perm (pilotRows i r' p'))
    (hmodified : p'.lastModifiedDateTime = p.lastModifiedDateTime) : isStale i r' p' = isStale i r p := by
  rw [isStale, isStale, hmodified]
  rcases alone_or_not h with ⟨row, hrow, hrow'⟩ | ⟨hnot, hnot'⟩
  · simp only [hrow, hrow']
  · split
    · next row hrow => exact absurd hrow (hnot' row)
    · rfl

theorem inspectDelivery_same {p p' : ReportedProfile} (h : SameProfile i p p') {states : List ConfigurationState}
    (hstates : r.pilotDevice.configurationStates.Perm states)
    (hdevice : r'.pilotDevice = { r.pilotDevice with configurationStates := states }) (f : Findings)
    (spec : ManifestProfile) : inspectDelivery i r' f spec p' = inspectDelivery i r f spec p := by
  obtain ⟨groupIds, deviceStatuses, rfl, -, hrows, -⟩ := h
  have hrow : (pilotRows i r p).Perm
      (pilotRows i r' { p with groupIds := groupIds, deviceStatuses := deviceStatuses }) := by
    rw [pilotRows, pilotRows, statusSuffix, statusSuffix, hdevice]
    exact hrows.filter _
  have hstate : (deviceStates i r p).Perm
      (deviceStates i r' { p with groupIds := groupIds, deviceStatuses := deviceStatuses }) := by
    rw [deviceStates, deviceStates, hdevice]
    exact hstates.filter _
  rw [inspectDelivery, inspectDelivery, isStale_same hrow rfl]
  rcases alone_or_not hstate with ⟨s, hs, hs'⟩ | ⟨hnot, hnot'⟩
  · simp only [hs, hs']
    rfl
  · split
    · next s hs => exact absurd hs (hnot' s)
    · rfl

/-- The profiles of an id. -/
theorem matches_same {spec : ManifestProfile} {same : List ReportedProfile}
    (hsame : List.Forall₂ (SameProfile i) r.profiles same) (hperm : same.Perm r'.profiles) :
    (∃ p p', (r.profiles.filter fun p => i.comparison.eq p.id spec.id) = [p] ∧
      (r'.profiles.filter fun p => i.comparison.eq p.id spec.id) = [p'] ∧ SameProfile i p p') ∨
    (∀ p, (r.profiles.filter fun p => i.comparison.eq p.id spec.id) ≠ [p]) ∧
      ∀ p', (r'.profiles.filter fun p => i.comparison.eq p.id spec.id) ≠ [p'] := by
  have hfilter : List.Forall₂ (SameProfile i) (r.profiles.filter fun p => i.comparison.eq p.id spec.id)
      (same.filter fun p => i.comparison.eq p.id spec.id) := by
    clear hperm
    generalize r.profiles = profiles at hsame
    induction hsame with
    | nil => exact .nil
    | @cons p p' ps ps' hp _ ih =>
      have hid : p'.id = p.id := by
        obtain ⟨_, _, rfl, -⟩ := hp
        rfl
      rw [List.filter_cons, List.filter_cons, hid]
      split_ifs
      · exact .cons hp ih
      · exact ih
  rcases alone_or_not (hperm.filter fun p => i.comparison.eq p.id spec.id) with ⟨p', hp', hr'⟩ | ⟨hnot, hnot'⟩
  · rw [hp'] at hfilter
    obtain ⟨p, _, hp, hrest, hr⟩ := List.forall₂_cons_right_iff.mp hfilter
    obtain rfl := List.forall₂_nil_right_iff.mp hrest
    exact Or.inl ⟨p, p', hr, hr', hp⟩
  · refine Or.inr ⟨fun p hp => ?_, hnot'⟩
    rw [hp] at hfilter
    obtain ⟨p', _, -, hrest, hr⟩ := List.forall₂_cons_left_iff.mp hfilter
    obtain rfl := List.forall₂_nil_left_iff.mp hrest
    exact hnot p' hr

theorem inspectProfile_same (h : Reordered i r r') (f : Findings) (spec : ManifestProfile) :
    inspectProfile i r' f spec = inspectProfile i r f spec := by
  obtain ⟨same, profiles, states, hsame, hperm, hstates, hr'⟩ := h
  have hperm' : same.Perm r'.profiles := by
    rw [hr']
    exact hperm
  rw [inspectProfile, inspectProfile]
  rcases @matches_same i r r' spec same hsame hperm' with ⟨p, p', hp, hp', hsameProfile⟩ | ⟨hnot, hnot'⟩
  · have hdelivery (f : Findings) : inspectDelivery i r' f spec p' = inspectDelivery i r f spec p :=
      inspectDelivery_same hsameProfile hstates (by rw [hr']) f spec
    have hassigned : isAssigned i r' p' = isAssigned i r p := isAssigned_same hsameProfile (by rw [hr'])
    have howned : isOwned i spec p' = isOwned i spec p := by
      obtain ⟨_, _, rfl, -⟩ := hsameProfile
      rfl
    have hcount : p'.deviceStatuses.length = p.deviceStatuses.length := by
      obtain ⟨_, _, rfl, -, hrows, -⟩ := hsameProfile
      exact hrows.length_eq.symm
    simp only [hp, hp', hdelivery, hassigned, howned, hcount]
  · split
    · next p hp => exact absurd hp (hnot' p)
    · rfl

theorem openingFailures_same (hschema : Schema r) (h : Reordered i r r') :
    openingFailures i r' = openingFailures i r := by
  obtain ⟨same, profiles, states, hsame, hperm, hstates, rfl⟩ := h
  have hids : same.map ReportedProfile.id = r.profiles.map ReportedProfile.id := by
    clear hperm
    generalize r.profiles = profiles at hsame
    induction hsame with
    | nil => rfl
    | cons hp _ ih =>
      obtain ⟨_, _, rfl, -⟩ := hp
      rw [List.map_cons, List.map_cons, ih]
  have hactual := hperm.map ReportedProfile.id
  rw [hids] at hactual
  have hties := ids_ties (i := i) hschema
  have hsort := i.sorting.determined _ _ hactual hties
  have hunique := (unique_perm hties hactual).length_eq
  simp only [openingFailures, hsort, hunique]
  rfl

end Order

section Judgement
variable {i : Inspector} {r : StatusReport} {f : Findings}

theorem isPilotDeviceBound_iff : isPilotDeviceBound i r = true ↔
    i.comparison.ceq r.pilotGroup.memberId r.pilotDevice.entraObjectId = true ∧
      ¬ r.pilotDevice.aadDeviceId.all isWhiteSpace ∧ ¬ r.pilotDevice.managedDeviceId.all isWhiteSpace ∧
      i.comparison.eq r.pilotDevice.operatingSystem (text "macOS") = true := by
  simp only [isPilotDeviceBound, Bool.and_eq_true, Bool.not_eq_true', Bool.not_eq_true, and_assoc]

theorem ready_iff (hschema : Schema r) : Ready i r ↔ openingFailures i r = [] ∧
    ∀ spec ∈ manifestProfiles, ∀ p ∈ r.profiles, p.id = spec.id → Satisfied i r spec p := by
  rw [openingFailures_eq_nil hschema, isPilotDeviceBound_iff]
  constructor
  · intro h
    exact ⟨⟨h.profiles, h.release, h.member, h.aadDeviceId, h.managedDeviceId, h.operatingSystem⟩, h.each⟩
  · rintro ⟨⟨hperm, hrelease, hmember, haad, hmanaged, hsystem⟩, heach⟩
    exact ⟨hperm, hrelease, hmember, haad, hmanaged, hsystem, heach⟩

/-- What the loop leaves. -/
theorem loop_judged (hschema : Schema r)
    (h : manifestProfiles.foldlM (inspectProfile i r) ⟨openingFailures i r, true, true, 0⟩ = some f) :
    (f.failures = [] ↔ Ready i r) ∧
      (f.failures = [] → f.assignmentProven = true ∧ f.requiredProfilesDelivered = true ∧ isPilotDeviceBound i r = true) := by
  by_cases hnil : openingFailures i r = []
  · obtain ⟨hperm, -, hbound⟩ := (openingFailures_eq_nil hschema).mp hnil
    obtain ⟨new, hnew, hall, hflags⟩ := loop_tally hschema hperm (fun _ hspec => hspec) h
    rw [hnil, List.nil_append] at hnew
    rw [hnew, hall, ready_iff hschema]
    refine ⟨⟨fun hall => ⟨hnil, hall⟩, fun hready => hready.2⟩, fun hall => ?_⟩
    obtain ⟨hassigned, hdelivered⟩ := hflags hall
    exact ⟨hassigned, hdelivered, hbound⟩
  · have hfailed := loop_keeps hschema h hnil
    rw [ready_iff hschema]
    exact ⟨⟨fun hnone => absurd hnone hfailed, fun hready => absurd hready.1 hnil⟩, fun hnone => absurd hnone hfailed⟩

/-- The answer is read off the findings of the loop. -/
theorem report_eq_some {result : Readiness} (h : testSantaIntuneProfileReport i r = some result) :
    ∃ f, manifestProfiles.foldlM (inspectProfile i r) ⟨openingFailures i r, true, true, 0⟩ = some f ∧
      result.failures = f.failures ∧ result.deliveryReadiness =
        (f.assignmentProven && isPilotDeviceBound i r && f.requiredProfilesDelivered && f.failures.isEmpty) := by
  obtain ⟨f, hloop, hresult⟩ := Option.bind_eq_some_iff.mp h
  obtain rfl := Option.some.inj hresult
  exact ⟨f, hloop, rfl, rfl⟩

theorem deliveryReadiness_iff (hschema : Schema r) {result : Readiness}
    (h : testSantaIntuneProfileReport i r = some result) :
    (result.deliveryReadiness = true ↔ result.failures = []) ∧ (result.failures = [] ↔ Ready i r) := by
  obtain ⟨f, hloop, hfailures, hdelivery⟩ := report_eq_some h
  obtain ⟨hready, hflags⟩ := loop_judged hschema hloop
  rw [hfailures, hdelivery]
  refine ⟨⟨fun hall => ?_, fun hnone => ?_⟩, hready⟩
  · simp only [Bool.and_eq_true] at hall
    exact List.isEmpty_iff.mp hall.2
  · obtain ⟨hassigned, hdelivered, hbound⟩ := hflags hnone
    rw [hassigned, hdelivered, hbound, hnone]
    rfl

end Judgement

section Sample

/-- Sorted by code points. -/
def ordinalSorting : Sorting where
  same a b := a.map lowerAscii = b.map lowerAscii
  refl := Comparison.ordinal.refl
  ascii := Comparison.ordinal.ascii
  sort xs := xs.insertionSort (· ≤ ·)
  perm xs := List.perm_insertionSort _ xs
  determined xs ys hperm _ := ((List.perm_insertionSort _ xs).trans (hperm.trans (List.perm_insertionSort _ ys).symm)).eq_of_pairwise'
    (List.pairwise_insertionSort _ xs) (List.pairwise_insertionSort _ ys)
  unique xs := xs.pwFilter fun a b => a.map lowerAscii ≠ b.map lowerAscii
  unique_subset xs := List.pwFilter_subset xs
  unique_apart xs := (List.pairwise_pwFilter xs).imp fun h => decide_eq_false h
  unique_cover xs a ha := by
    by_contra hnone
    push Not at hnone
    have hall : ∀ b ∈ xs.pwFilter fun a b => a.map lowerAscii ≠ b.map lowerAscii, a.map lowerAscii ≠ b.map lowerAscii :=
      fun b hb => of_decide_eq_false (Bool.eq_false_iff.mpr (hnone b hb))
    have hneg {x y z : Text} (hne : x.map lowerAscii ≠ z.map lowerAscii) :
        x.map lowerAscii ≠ y.map lowerAscii ∨ y.map lowerAscii ≠ z.map lowerAscii := by
      by_contra hboth
      push Not at hboth
      exact hne (hboth.1.trans hboth.2)
    exact (List.forall_mem_pwFilter (R := fun a b : Text => a.map lowerAscii ≠ b.map lowerAscii) hneg a xs).mp hall a ha rfl

def ordinalInspector : Inspector where
  comparison := .ordinal
  sorting := ordinalSorting
  delivered s := s.map lowerAscii ∈ [text "succeeded", text "remediated"]
  delivered_ascii _ _ := decide_eq_true_iff
  clike s
    | 42 :: t => t <:+ s
    | pattern => s = pattern
  clike_suffix _ _ _ := decide_eq_true_iff
  dateTimeOffset t := if t.all isDigit then some (readDecimal t) else none

/-- A profile on its device, changed at 3 and seen at 5. -/
def sampleProfile (spec : ManifestProfile) : ReportedProfile where
  id := spec.id
  objectId := text "0b-" ++ spec.id
  displayName := expectedName spec
  description := expectedDescription spec
  lastModifiedDateTime := text "3"
  groupIds := [text "9f"]
  exactPilotOnly := true
  errorCount := 0
  failedCount := 0
  deviceStatuses := [⟨text "old_0b_77", text "mac-01", text "failed", text "1"⟩,
    ⟨text "u_0b-" ++ spec.id ++ text "_77", text "mac-01", text "Succeeded", text "5"⟩]

def sampleReport : StatusReport where
  collectedAt := text "6"
  tenantId := text "4b2f"
  account := text "ada@contoso.example"
  release := releaseTag
  pilotGroup := ⟨text "9f", text "Santa pilot", text "31"⟩
  pilotDevice := ⟨text "31", text "32", text "77", text "mac-01", text "macOS",
    manifestProfiles.map fun spec => ⟨text "0b-" ++ spec.id, text "remediated"⟩⟩
  profiles := manifestProfiles.map sampleProfile
  deliveryReadiness := true

theorem sample_schema : Schema sampleReport where
  ids := by decide
  objectIds := by decide
  managedDeviceId := by decide

end Sample
end Intune
