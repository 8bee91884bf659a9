import AzdSanta.Intune.Package
import AzdSanta.Intune.Readiness

/-! Runs of the package script, each of which can stop anywhere: one app, one file, one assignment. -/
namespace Intune.Package
open Python PowerShell Processes Sequential

section Statements
variable (shell : Shell) (k : Parameters) (finds : Option Text → Bool)

/-- The apps that the filter finds. -/
def found (apps : List App) : List App := apps.filter fun a => finds a.displayName

def others (apps : List App) : List App := apps.filter fun a => !finds a.displayName

def App.files (a : App) : List ContentFile := a.versions.flatMap ContentVersion.files

/-- The content files of the apps that are found. -/
def foundFiles (apps : List App) : List ContentFile := (found finds apps).flatMap App.files

/-- An app of ours without a committed content and without an assignment. -/
structure Untouched (a : App) : Prop where
  owned : isOwnedApp shell a = true
  committed : a.committedContentVersion = none
  assignments : a.assignments = []

/-- The run has read a report of the last half hour that says, and from which it follows, that the profiles are
delivered. -/
def Gated (run : List (Call × Reply)) : Prop :=
  ∃ report now collected verified, (Call.readReport, Reply.report report) ∈ run ∧ (Call.utcNow, Reply.instant now) ∈ run ∧
    shell.inspector.dateTimeOffset report.collectedAt = some collected ∧
    (-5 * minute ≤ now - collected ∧ now - collected ≤ 30 * minute) ∧ isSelected shell k report = true ∧
    testSantaIntuneProfileReport shell.inspector report = some verified ∧
    report.deliveryReadiness = true ∧ verified.deliveryReadiness = true

/-- There is one app, of ours, with one content version and in it one file, which the run has made. -/
structure Holding (run : List (Call × Reply)) (apps : List App) (id version : ℕ) (f : ContentFile)
    (committed : Option ℕ) : Prop where
  app : ∃ a, found finds apps = [a] ∧ a.id = id ∧ isOwnedApp shell a = true ∧ a.committedContentVersion = committed ∧
    a.assignments = [] ∧ a.versions = [⟨version, [f]⟩]
  own : ∃ body state uri, (Call.createFile id version body, Reply.file f state uri) ∈ run

/-- The run has seen that the commit of the file is done. -/
def SawCommit (run : List (Call × Reply)) (id version file : ℕ) : Prop :=
  ∃ f state uri, (Call.getFile id version file, Reply.file f state uri) ∈ run ∧
    shell.inspector.comparison.eq state (text "commitFileSuccess") = true

/-- The run has seen that the app is published. -/
def SawPublished (run : List (Call × Reply)) (id : ℕ) : Prop :=
  ∃ a state isAssigned, (Call.getApp id, Reply.app a state isAssigned) ∈ run ∧
    shell.inspector.comparison.eq state (text "published") = true

/-- A change that may be asked for. -/
def Permitted (x : Issue) : Prop :=
  Gated shell k x.run ∧ match x.call with
  | .createApp body => body = appBody shell ∧ found finds x.apps = []
  | .createVersion id => ∃ a, found finds x.apps = [a] ∧ a.id = id ∧ Untouched shell a ∧ a.versions = []
  | .createFile id version body => (∃ a, found finds x.apps = [a] ∧ a.id = id ∧ Untouched shell a ∧
      a.versions = [⟨version, []⟩]) ∧ body.name = k.fileName ∧ body.size = k.package.length
  | .put _ => ∃ id version f, Holding shell finds x.run x.apps id version f none
  | .commit id version file _ => ∃ f, f.id = file ∧ Holding shell finds x.run x.apps id version f none
  | .patchApp id version => ∃ f, Holding shell finds x.run x.apps id version f none ∧ SawCommit shell x.run id version f.id
  | .assign id groupId => groupId = k.pilotGroupId ∧ ∃ version f,
      Holding shell finds x.run x.apps id version f (some version) ∧ SawCommit shell x.run id version f.id ∧
        SawPublished shell x.run id
  | _ => False

/-- What is done once with an app. -/
def Call.rank : Call → Option ℕ
  | .commit _ _ _ _ => some 0
  | .patchApp _ _ => some 1
  | .assign _ _ => some 2
  | _ => none

/-- What is done with an app that has a file. -/
def Call.late : Call → Bool
  | .put _ | .commit _ _ _ _ | .patchApp _ _ | .assign _ _ => true
  | _ => false

def ranks (issued : List Issue) : List ℕ := issued.filterMap fun x => x.call.rank

/-- What holds in every state of every run since `w₀`. -/
structure Safe (w₀ w : World) : Prop where
  permitted : ∀ x ∈ w.issued, ∃ k, Permitted shell k finds x
  one : (found finds w.apps).length ≤ 1
  others : others finds w.apps = others finds w₀.apps
  files : (foundFiles finds w.apps).length ≤ max (foundFiles finds w₀.apps).length 1
  late : foundFiles finds w.apps = [] → ∀ x ∈ w.issued, x.call.late = false
  once : (ranks w.issued).Nodup

/-- An app that the script takes up: there is none, or it is untouched and has no content file. -/
def Open (apps : List App) : Prop :=
  found finds apps = [] ∨ ∃ a, found finds apps = [a] ∧ Untouched shell a ∧
    (a.versions = [] ∨ ∃ version, a.versions = [⟨version, []⟩])

/-- The one app, as it should be in the end. -/
def Complete (apps : List App) : Prop :=
  ∃ a version f, found finds apps = [a] ∧ isOwnedApp shell a = true ∧ a.committedContentVersion = some version ∧
    (∃ v ∈ a.versions, v.id = version ∧ v.files = [f]) ∧
    ∃ assignment, a.assignments = [assignment] ∧ testExactRequiredAssignment shell k.pilotGroupId assignment = true

end Statements

section Changes
variable {shell : Shell} {k : Parameters} {finds : Option Text → Bool} {w w₀ : World} {before after : List App}

theorem eq_of_id (hunique : (before.map App.id).Nodup) {a b : App} (ha : a ∈ before) (hb : b ∈ before)
    (hid : b.id = a.id) : b = a := List.inj_on_of_nodup_map hunique hb ha hid

theorem mem_of_found {a : App} (h : found finds before = [a]) : a ∈ before ∧ finds a.displayName = true := by
  have hmem : a ∈ found finds before := by
    rw [h]
    exact List.mem_singleton_self a
  exact List.mem_filter.mp hmem

/-- A change of the one app leaves the others alone. -/
theorem found_modifyApp {a : App} {f : App → App} (hunique : (before.map App.id).Nodup)
    (hone : found finds before = [a]) (hname : ∀ b, (f b).displayName = b.displayName) :
    found finds (modifyApp a.id f before) = [f a] ∧ others finds (modifyApp a.id f before) = others finds before := by
  obtain ⟨ha, hfinds⟩ := mem_of_found hone
  have hdisplay (b : App) : (if b.id = a.id then f b else b).displayName = b.displayName := by
    split_ifs
    · exact hname b
    · rfl
  constructor
  · rw [found, modifyApp, List.filter_map]
    simp only [Function.comp_def, hdisplay]
    rw [← found, hone, List.map_singleton, if_pos rfl]
  · rw [others, modifyApp, List.filter_map]
    simp only [Function.comp_def, hdisplay]
    refine (List.map_congr_left fun b hb => ?_).trans (List.map_id _)
    obtain ⟨hb, hnot⟩ := List.mem_filter.mp hb
    refine if_neg fun hid => ?_
    rw [eq_of_id hunique ha hb hid, hfinds] at hnot
    cases hnot

theorem foundFiles_of_found {a : App} (h : found finds before = [a]) : foundFiles finds before = a.files := by
  rw [foundFiles, h, List.flatMap_singleton]

theorem Holding.files {run : List (Call × Reply)} {id version : ℕ} {f : ContentFile} {committed : Option ℕ}
    (h : Holding shell finds run before id version f committed) : foundFiles finds before = [f] := by
  obtain ⟨a, hone, -, -, -, -, hversions⟩ := h.app
  rw [foundFiles_of_found hone, App.files, hversions]
  rfl

theorem Changes.of_createApp {body : AppBody} {r : Reply} (h : Changes (.createApp body) r before after) :
    ∃ id state isAssigned, r = .app (body.app id) state isAssigned ∧ after = before ++ [body.app id] := by
  cases h
  exact ⟨_, _, _, rfl, rfl⟩

theorem Changes.of_createVersion {id : ℕ} {r : Reply} (h : Changes (.createVersion id) r before after) :
    ∃ version, r = .version version ∧ after = modifyApp id (App.addVersion version) before := by
  cases h
  exact ⟨_, rfl, rfl⟩

theorem Changes.of_createFile {id version : ℕ} {body : FileBody} {r : Reply}
    (h : Changes (.createFile id version body) r before after) : ∃ f state uri, r = .file f state uri ∧
      after = modifyApp id (App.addFile version f) before := by
  cases h
  exact ⟨_, _, _, rfl, rfl⟩

theorem Changes.of_put {request : Put} {r : Reply} (h : Changes (.put request) r before after) : after = before := by
  cases h
  rfl

theorem Changes.of_commit {id version file : ℕ} {info : EncryptionInfo} {r : Reply}
    (h : Changes (.commit id version file info) r before after) : after = before := by
  cases h
  rfl

theorem Changes.of_patchApp {id version : ℕ} {r : Reply} (h : Changes (.patchApp id version) r before after) :
    after = modifyApp id (App.commitVersion version) before := by
  cases h
  rfl

theorem Changes.of_assign {id : ℕ} {groupId : Text} {r : Reply} (h : Changes (.assign id groupId) r before after) :
    ∃ filterType, (filterType = none ∨ filterType = some (text "none")) ∧
      after = modifyApp id (App.addAssignment groupId filterType) before := by
  cases h
  exact ⟨_, ‹_›, rfl⟩

/-- What a permitted change does to the apps that are found. -/
structure Bounded (finds : Option Text → Bool) (call : Call) (before after : List App) : Prop where
  one : (found finds after).length ≤ 1
  others : others finds after = others finds before
  grows : (foundFiles finds before).length ≤ (foundFiles finds after).length
  files : (foundFiles finds after).length ≤ max (foundFiles finds before).length 1
  late : call.late = true → foundFiles finds before ≠ []

theorem bounded_modifyApp {call : Call} {a : App} {f : App → App} (hunique : (before.map App.id).Nodup)
    (hone : found finds before = [a]) (hname : ∀ b, (f b).displayName = b.displayName)
    (hgrows : a.files.length ≤ (f a).files.length) (hfiles : (f a).files.length ≤ max a.files.length 1)
    (hlate : call.late = true → a.files ≠ []) : Bounded finds call before (modifyApp a.id f before) := by
  obtain ⟨hfound, hothers⟩ := found_modifyApp hunique hone hname
  constructor
  · rw [hfound]
    exact le_rfl
  · exact hothers
  · rw [foundFiles_of_found hone, foundFiles_of_found hfound]
    exact hgrows
  · rw [foundFiles_of_found hone, foundFiles_of_found hfound]
    exact hfiles
  · rw [foundFiles_of_found hone]
    exact hlate

theorem bounded_same {call : Call} (hone : (found finds before).length ≤ 1)
    (hlate : call.late = true → foundFiles finds before ≠ []) : Bounded finds call before before :=
  ⟨hone, rfl, le_rfl, le_max_left _ _, hlate⟩

theorem addVersion_files (version : ℕ) (a : App) : (a.addVersion version).files = a.files := by
  simp [App.files, App.addVersion]

theorem addFile_files {version : ℕ} {f : ContentFile} {a : App} (h : a.versions = [⟨version, []⟩]) :
    (a.addFile version f).versions = [⟨version, [f]⟩] := by
  simp [App.addFile, h]

theorem Changes.bounded {call : Call} {r : Reply} {run : List (Call × Reply)} (h : Changes call r before after)
    (hunique : (before.map App.id).Nodup) (hfinds : finds (some displayName) = true)
    (hpermitted : Permitted shell k finds ⟨call, before, run⟩) : Bounded finds call before after := by
  obtain ⟨-, hpermitted⟩ := hpermitted
  cases h with
  | createApp body id publishingState isAssigned apps hfresh =>
    obtain ⟨rfl, hnone⟩ := hpermitted
    have hnew : finds ((appBody shell).app id).displayName = true := hfinds
    have hfound : found finds (before ++ [(appBody shell).app id]) = [(appBody shell).app id] := by
      rw [found, List.filter_append, ← found, hnone]
      simp [hnew]
    constructor
    · rw [hfound]
      exact le_rfl
    · rw [others, List.filter_append, ← others]
      simp [hnew]
    · rw [foundFiles, hnone]
      exact Nat.zero_le _
    · rw [foundFiles_of_found hfound]
      exact Nat.zero_le _
    · rintro ⟨⟩
  | createVersion id version apps =>
    obtain ⟨a, hone, rfl, -, -⟩ := hpermitted
    have hfiles := addVersion_files version a
    exact bounded_modifyApp hunique hone (fun _ => rfl) (by rw [hfiles]) (by rw [hfiles]; exact le_max_left _ _)
      (by rintro ⟨⟩)
  | createFile id version body file uploadState uri apps =>
    obtain ⟨⟨a, hone, rfl, -, hversions⟩, -⟩ := hpermitted
    have hbefore : a.files = [] := by
      rw [App.files, hversions]
      rfl
    have hafter : (a.addFile version ⟨file, body.name, body.size⟩).files = [⟨file, body.name, body.size⟩] := by
      rw [App.files, addFile_files hversions]
      rfl
    refine bounded_modifyApp hunique hone (fun _ => rfl) ?_ ?_ (by rintro ⟨⟩)
    · rw [hbefore]
      exact Nat.zero_le _
    · rw [hafter]
      exact le_max_right _ _
  | put request apps =>
    obtain ⟨id, version, f, hholding⟩ := hpermitted
    obtain ⟨a, hone, -⟩ := hholding.app
    refine bounded_same (by rw [hone]; exact le_rfl) fun _ => ?_
    rw [hholding.files]
    exact List.cons_ne_nil _ _
  | commit id version file info apps =>
    obtain ⟨f, -, hholding⟩ := hpermitted
    obtain ⟨a, hone, -⟩ := hholding.app
    refine bounded_same (by rw [hone]; exact le_rfl) fun _ => ?_
    rw [hholding.files]
    exact List.cons_ne_nil _ _
  | patchApp id version apps =>
    obtain ⟨f, hholding, -⟩ := hpermitted
    obtain ⟨a, hone, rfl, -, -, -, hversions⟩ := hholding.app
    refine bounded_modifyApp hunique hone (fun _ => rfl) le_rfl (le_max_left _ _) fun _ => ?_
    rw [App.files, hversions]
    exact List.cons_ne_nil _ _
  | assign id groupId filterType apps hfilter =>
    obtain ⟨-, version, f, hholding, -⟩ := hpermitted
    obtain ⟨a, hone, rfl, -, -, -, hversions⟩ := hholding.app
    refine bounded_modifyApp hunique hone (fun _ => rfl) le_rfl (le_max_left _ _) fun _ => ?_
    rw [App.files, hversions]
    exact List.cons_ne_nil _ _

/-- A permitted change is safe, whatever becomes of its reply. -/
theorem Safe.change {w' : World} {call : Call} {r : Reply} (h : Safe shell finds w₀ w)
    (hfinds : finds (some displayName) = true) (hmutates : call.mutates = true)
    (hpermitted : Permitted shell k finds ⟨call, w.apps, w.run⟩)
    (hrank : ∀ n, call.rank = some n → n ∉ ranks w.issued) (hop : effect finds call r w w') :
    Safe shell finds w₀ w' := by
  obtain ⟨-, hop⟩ := hop
  rw [if_pos hmutates] at hop
  obtain ⟨hissued, hanswers⟩ := hop
  have hafter : w'.apps = w.apps ∨ ∃ r', Changes call r' w.apps w'.apps := by
    rcases hanswers with hchanges | ⟨-, hafter⟩
    · exact Or.inr ⟨r, hchanges⟩
    · exact hafter
  have hbounded : w'.apps = w.apps ∨ Bounded finds call w.apps w'.apps :=
    hafter.imp_right fun ⟨_, hchanges⟩ => hchanges.bounded w.unique hfinds hpermitted
  have hlate : call.late = true → foundFiles finds w.apps ≠ [] := by
    rcases hafter with hsame | ⟨r', hchanges⟩
    · intro hlate
      cases call with
      | put => obtain ⟨-, id, version, f, hholding⟩ := hpermitted; rw [hholding.files]; exact List.cons_ne_nil _ _
      | commit => obtain ⟨-, f, -, hholding⟩ := hpermitted; rw [hholding.files]; exact List.cons_ne_nil _ _
      | patchApp => obtain ⟨-, f, hholding, -⟩ := hpermitted; rw [hholding.files]; exact List.cons_ne_nil _ _
      | assign => obtain ⟨-, -, version, f, hholding, -⟩ := hpermitted; rw [hholding.files]; exact List.cons_ne_nil _ _
      | _ => cases hlate
    · exact (hchanges.bounded w.unique hfinds hpermitted).late
  have hgrows : (foundFiles finds w.apps).length ≤ (foundFiles finds w'.apps).length := by
    rcases hbounded with hsame | hbounded
    · rw [hsame]
    · exact hbounded.grows
  constructor
  · intro x hx
    rw [hissued] at hx
    rcases List.mem_cons.mp hx with rfl | hx
    · exact ⟨k, hpermitted⟩
    · exact h.permitted x hx
  · rcases hbounded with hsame | hbounded
    · rw [hsame]
      exact h.one
    · exact hbounded.one
  · rcases hbounded with hsame | hbounded
    · rw [hsame]
      exact h.others
    · exact hbounded.others.trans h.others
  · rcases hbounded with hsame | hbounded
    · rw [hsame]
      exact h.files
    · exact hbounded.files.trans (max_le h.files (le_max_right _ _))
  · intro hnone x hx
    rw [hnone] at hgrows
    have hnone' : foundFiles finds w.apps = [] := List.eq_nil_of_length_eq_zero (Nat.le_zero.mp hgrows)
    rw [hissued] at hx
    rcases List.mem_cons.mp hx with rfl | hx
    · exact Bool.eq_false_iff.mpr fun hlate' => hlate hlate' hnone'
    · exact h.late hnone' x hx
  · rw [hissued, ranks, List.filterMap_cons]
    split
    · exact h.once
    · next n hn => exact List.nodup_cons.mpr ⟨hrank n hn, h.once⟩

end Changes

section Rules
variable {shell : Shell} {k : Parameters} {finds : Option Text → Bool} {w w' w₀ : World} {α : Type} {I : World → Prop}

/-- Only reads lie between. -/
structure Looked (w w' : World) : Prop where
  apps : w'.apps = w.apps
  issued : w'.issued = w.issued
  run : w.run ⊆ w'.run

theorem Looked.refl (w : World) : Looked w w := ⟨rfl, rfl, fun _ h => h⟩

theorem Looked.trans {w'' : World} (h : Looked w w') (h' : Looked w' w'') : Looked w w'' :=
  ⟨h'.apps.trans h.apps, h'.issued.trans h.issued, fun _ hx => h'.run (h.run hx)⟩

theorem Safe.same (h : Safe shell finds w₀ w) (happs : w'.apps = w.apps) (hissued : w'.issued = w.issued) :
    Safe shell finds w₀ w' := by
  constructor
  · rw [hissued]
    exact h.permitted
  · rw [happs]
    exact h.one
  · rw [happs]
    exact h.others
  · rw [happs]
    exact h.files
  · rw [happs, hissued]
    exact h.late
  · rw [hissued]
    exact h.once

theorem Safe.looked (h : Safe shell finds w₀ w) (hlooked : Looked w w') : Safe shell finds w₀ w' :=
  h.same hlooked.apps hlooked.issued

theorem Gated.mono {run run' : List (Call × Reply)} (h : Gated shell k run) (hrun : run ⊆ run') :
    Gated shell k run' := by
  obtain ⟨report, now, collected, verified, hreport, hnow, hrest⟩ := h
  exact ⟨report, now, collected, verified, hrun hreport, hrun hnow, hrest⟩

theorem Holding.mono {id version : ℕ} {f : ContentFile} {committed : Option ℕ}
    (h : Holding shell finds w.run w.apps id version f committed) (happs : w'.apps = w.apps) (hrun : w.run ⊆ w'.run) :
    Holding shell finds w'.run w'.apps id version f committed := by
  obtain ⟨happ, body, state, uri, hown⟩ := h
  rw [happs]
  exact ⟨happ, body, state, uri, hrun hown⟩

theorem SawCommit.mono {run run' : List (Call × Reply)} {id version file : ℕ} (h : SawCommit shell run id version file)
    (hrun : run ⊆ run') : SawCommit shell run' id version file := by
  obtain ⟨f, state, uri, hmem, hstate⟩ := h
  exact ⟨f, state, uri, hrun hmem, hstate⟩

theorem SawPublished.mono {run run' : List (Call × Reply)} {id : ℕ} (h : SawPublished shell run id)
    (hrun : run ⊆ run') : SawPublished shell run' id := by
  obtain ⟨a, state, isAssigned, hmem, hstate⟩ := h
  exact ⟨a, state, isAssigned, hrun hmem, hstate⟩

theorem ensures_read {call : Call} {value : Reply → Option α} {Q : α → World → Prop} (hread : call.mutates = false)
    (hstart : call ≠ .start) (hI : ∀ w', Looked w w' → I w')
    (h : ∀ r a w', Looked w w' → (call, r) ∈ w'.run → Reads finds w.apps call r → value r = some a → Q a w') :
    Ensures (effect finds) I (invoke call value) Q w := by
  apply ensures_invoke
  intro r w' hop
  obtain ⟨hrun, hop⟩ := hop
  rw [if_neg (by simp [hread])] at hop
  obtain ⟨hissued, happs, hreads⟩ := hop
  rw [if_neg hstart] at hrun
  have hlooked : Looked w w' := by
    refine ⟨happs, hissued, ?_⟩
    rw [hrun]
    exact List.subset_cons_self _ _
  refine ⟨hI w' hlooked, fun a ha => h r a w' hlooked ?_ hreads ha⟩
  rw [hrun]
  exact List.mem_cons_self

/-- A change that is answered. -/
theorem ensures_change {call : Call} {value : Reply → Option α} {Q : α → World → Prop}
    (hsafe : Safe shell finds w₀ w) (hI : ∀ w', Safe shell finds w₀ w' → I w')
    (hfinds : finds (some displayName) = true) (hmutates : call.mutates = true) (hvalue : value .error = none)
    (hpermitted : Permitted shell k finds ⟨call, w.apps, w.run⟩)
    (hrank : ∀ n, call.rank = some n → n ∉ ranks w.issued)
    (h : ∀ r a w', Changes call r w.apps w'.apps → value r = some a → Safe shell finds w₀ w' → (call, r) ∈ w'.run →
      w.run ⊆ w'.run → w'.issued = ⟨call, w.apps, w.run⟩ :: w.issued → Q a w') :
    Ensures (effect finds) I (invoke call value) Q w := by
  apply ensures_invoke
  intro r w' hop
  have hsafe' := hsafe.change hfinds hmutates hpermitted hrank hop
  refine ⟨hI w' hsafe', fun a ha => ?_⟩
  obtain ⟨hrun, hop⟩ := hop
  rw [if_pos hmutates] at hop
  obtain ⟨hissued, hchanges | ⟨rfl, -⟩⟩ := hop
  · have hstart : call ≠ .start := by
      rintro rfl
      cases hmutates
    rw [if_neg hstart] at hrun
    refine h r a w' hchanges ha hsafe' ?_ ?_ hissued
    · rw [hrun]
      exact List.mem_cons_self
    · rw [hrun]
      exact List.subset_cons_self _ _
  · rw [hvalue] at ha
    cases ha

theorem asFile_eq {r : Reply} {f : ContentFile} {state uri : Text} (h : r.asFile = some (f, state, uri)) :
    r = .file f state uri := by
  cases r with
  | file f' state' uri' =>
    obtain ⟨rfl, hrest⟩ := Prod.mk.inj (Option.some.inj h)
    obtain ⟨rfl, rfl⟩ := Prod.mk.inj hrest
    rfl
  | _ => cases h

theorem asApp_eq {r : Reply} {a : App} {state : Text} {isAssigned : Bool} (h : r.asApp = some (a, state, isAssigned)) :
    r = .app a state isAssigned := by
  cases r with
  | app a' state' isAssigned' =>
    obtain ⟨rfl, hrest⟩ := Prod.mk.inj (Option.some.inj h)
    obtain ⟨rfl, rfl⟩ := Prod.mk.inj hrest
    rfl
  | _ => cases h

/-- The wait for a file ends with its success. -/
theorem ensures_wait {id version file attempts : ℕ} {stage : String} {Q : ContentFile × Text → World → Prop}
    (hI : ∀ w', Looked w w' → I w')
    (h : ∀ w' f state uri, Looked w w' → (Call.getFile id version file, Reply.file f state uri) ∈ w'.run →
      shell.inspector.comparison.eq state (text (stage ++ "Success")) = true → Q (f, uri) w') :
    Ensures (effect finds) I (waitContentFileState shell id version file stage attempts) Q w := by
  induction attempts generalizing w with
  | zero => trivial
  | succ attempts ih =>
    apply ensures_bind
    apply ensures_read rfl (by rintro ⟨⟩) hI
    rintro r ⟨f, state, uri⟩ w' hlooked hmem - hr
    obtain rfl := asFile_eq hr
    dsimp only
    split_ifs with hsuccess
    · exact h w' f state uri hlooked hmem hsuccess
    · apply ensures_bind
      apply ensures_need
      intro _
      apply ih
      · exact fun w'' hlooked' => hI w'' (hlooked.trans hlooked')
      · exact fun w'' f' state' uri' hlooked' => h w'' f' state' uri' (hlooked.trans hlooked')

theorem ensures_waitPublished {id attempts attempt : ℕ} {Q : Unit → World → Prop} (hI : ∀ w', Looked w w' → I w')
    (h : ∀ w', Looked w w' → SawPublished shell w'.run id → Q () w') :
    Ensures (effect finds) I (waitPublished shell id attempts attempt) Q w := by
  induction attempts generalizing w attempt with
  | zero => trivial
  | succ attempts ih =>
    apply ensures_bind
    apply ensures_read rfl (by rintro ⟨⟩) hI
    rintro r ⟨a, state, isAssigned⟩ w' hlooked hmem - hr
    obtain rfl := asApp_eq hr
    dsimp only
    split_ifs with hpublished
    · exact h w' hlooked ⟨a, state, isAssigned, hmem, hpublished⟩
    · apply ensures_bind
      apply ensures_need
      intro _
      apply ih
      · exact fun w'' hlooked' => hI w'' (hlooked.trans hlooked')
      · exact fun w'' hlooked' => h w'' (hlooked.trans hlooked')

end Rules

section Phases
variable {shell : Shell} {k : Parameters} {finds : Option Text → Bool} {w w' w₀ : World} {I : World → Prop} {a : App}
  {version : ℕ} {f : ContentFile}

theorem rank_of_not_late {call : Call} (h : call.late = false) : call.rank = none := by
  cases call <;> first | rfl | cases h

/-- Before there is a file nothing has been done that is done once. -/
theorem Safe.ranks_eq_nil (h : Safe shell finds w₀ w) (hnone : foundFiles finds w.apps = []) : ranks w.issued = [] :=
  List.filterMap_eq_nil_iff.mpr fun x hx => rank_of_not_late (h.late hnone x hx)

/-- The content version is the one of the app, or is made. -/
theorem ensures_contentVersion (hsafe : Safe shell finds w₀ w) (hlook : ∀ w', Looked w w' → I w')
    (hI : Open shell finds w.apps → ∀ w', Safe shell finds w₀ w' → I w') (hfinds : finds (some displayName) = true)
    (hgated : Gated shell k w.run) (hone : found finds w.apps = [a]) (huntouched : Untouched shell a) :
    Ensures (effect finds) I (contentVersion a.id) (fun version w' => Open shell finds w.apps ∧
      Safe shell finds w₀ w' ∧ Gated shell k w'.run ∧
      ∃ a', found finds w'.apps = [a'] ∧ a'.id = a.id ∧ Untouched shell a' ∧ a'.versions = [⟨version, []⟩]) w := by
  obtain ⟨ha, -⟩ := mem_of_found hone
  apply ensures_bind
  apply ensures_read rfl (by rintro ⟨⟩) hlook
  intro r versions w₁ h₁ _ hreads hr
  obtain rfl : versions = a.versions.map ContentVersion.id := by
    cases r with
    | versions ids =>
      obtain rfl := Option.some.inj hr
      obtain ⟨b, hb, hid, rfl⟩ := hreads
      rw [eq_of_id w.unique ha hb hid]
    | _ => cases hr
  rcases hversions : a.versions with _ | ⟨v, _ | ⟨v', rest⟩⟩
  · have hopen : Open shell finds w.apps := Or.inr ⟨a, hone, huntouched, Or.inl hversions⟩
    have hone₁ : found finds w₁.apps = [a] := by rw [h₁.apps, hone]
    have hpermitted : Permitted shell k finds ⟨.createVersion a.id, w₁.apps, w₁.run⟩ :=
      ⟨hgated.mono h₁.run, a, hone₁, rfl, huntouched, hversions⟩
    refine ensures_change (hsafe.looked h₁) (hI hopen) hfinds rfl rfl hpermitted (by rintro n ⟨⟩) ?_
    intro r version w₂ hchanges hr hsafe₂ _ hrun _
    obtain ⟨version', rfl, hafter⟩ := hchanges.of_createVersion
    obtain rfl := Option.some.inj hr
    obtain ⟨hfound, -⟩ := found_modifyApp (f := App.addVersion version') w₁.unique hone₁ fun _ => rfl
    rw [← hafter] at hfound
    refine ⟨hopen, hsafe₂, hgated.mono fun _ hx => hrun (h₁.run hx), a.addVersion version', hfound, rfl,
      ⟨huntouched.owned, huntouched.committed, huntouched.assignments⟩, ?_⟩
    rw [App.addVersion, hversions]
    rfl
  · apply ensures_bind
    apply ensures_read rfl (by rintro ⟨⟩) fun w' hlooked => hlook w' (h₁.trans hlooked)
    intro r files w₂ h₂ _ hreads hr
    apply ensures_bind
    apply ensures_need
    intro hnone
    obtain ⟨id, vfiles⟩ := v
    obtain rfl : vfiles = [] := by
      cases r with
      | files list =>
        obtain rfl := Option.some.inj hr
        obtain ⟨b, hb, hid, v, hv, -, hlist⟩ := hreads
        rw [h₁.apps] at hb
        rw [eq_of_id w.unique ha hb hid, hversions] at hv
        obtain rfl := List.mem_singleton.mp hv
        rw [List.eq_nil_of_length_eq_zero hnone] at hlist
        exact hlist.symm
      | _ => cases hr
    have hlooked := h₁.trans h₂
    refine ⟨Or.inr ⟨a, hone, huntouched, Or.inr ⟨id, hversions⟩⟩, hsafe.looked hlooked, hgated.mono hlooked.run, a, ?_,
      rfl, huntouched, hversions⟩
    rw [hlooked.apps, hone]
  · trivial

/-- The upload asks for PUTs only. -/
theorem ensures_sendAll {puts : List Put} {id : ℕ} (hsafe : Safe shell finds w₀ w)
    (hI : ∀ w', Safe shell finds w₀ w' → I w') (hfinds : finds (some displayName) = true) (hgated : Gated shell k w.run)
    (hholding : Holding shell finds w.run w.apps id version f none) :
    Ensures (effect finds) I (sendAll puts) (fun _ w' => Safe shell finds w₀ w' ∧ Gated shell k w'.run ∧
      Holding shell finds w'.run w'.apps id version f none ∧ ranks w'.issued = ranks w.issued) w := by
  induction puts generalizing w with
  | nil => exact ⟨hsafe, hgated, hholding, rfl⟩
  | cons request puts ih =>
    apply ensures_bind
    have hpermitted : Permitted shell k finds ⟨.put request, w.apps, w.run⟩ := ⟨hgated, id, version, f, hholding⟩
    refine ensures_change hsafe hI hfinds rfl rfl hpermitted (by rintro n ⟨⟩) ?_
    intro r _ w₁ hchanges _ hsafe₁ _ hrun hissued
    have hranks : ranks w₁.issued = ranks w.issued := by
      rw [hissued]
      rfl
    rw [← hranks]
    exact ih hsafe₁ (hgated.mono hrun) (hholding.mono hchanges.of_put hrun)

/-- The file is made, filled and committed. -/
theorem ensures_uploadFile (hsafe : Safe shell finds w₀ w) (hI : ∀ w', Safe shell finds w₀ w' → I w')
    (hfinds : finds (some displayName) = true) (hgated : Gated shell k w.run) (hone : found finds w.apps = [a])
    (huntouched : Untouched shell a) (hversions : a.versions = [⟨version, []⟩]) :
    Ensures (effect finds) I (uploadFile shell k a.id version) (fun _ w' => Safe shell finds w₀ w' ∧
      Gated shell k w'.run ∧ ranks w'.issued = [0] ∧ ∃ f, Holding shell finds w'.run w'.apps a.id version f none ∧
        SawCommit shell w'.run a.id version f.id) w := by
  have hranks : ranks w.issued = [] := by
    refine hsafe.ranks_eq_nil ?_
    rw [foundFiles_of_found hone, App.files, hversions]
    rfl
  apply ensures_bind
  apply ensures_read rfl (by rintro ⟨⟩) fun w' hlooked => hI w' (hsafe.looked hlooked)
  intro r keys w₁ h₁ _ _ _
  have hone₁ : found finds w₁.apps = [a] := by rw [h₁.apps, hone]
  apply ensures_bind
  refine ensures_change (hsafe.looked h₁) hI hfinds rfl rfl
    ⟨hgated.mono h₁.run, ⟨a, hone₁, rfl, huntouched, hversions⟩, rfl, rfl⟩ (by rintro n ⟨⟩) ?_
  rintro r ⟨f, state, uri⟩ w₂ hchanges hr hsafe₂ hmem hrun₂ hissued₂
  obtain rfl := asFile_eq hr
  obtain ⟨f', state', uri', hfile, hafter⟩ := hchanges.of_createFile
  obtain ⟨rfl, rfl, rfl⟩ := Reply.file.inj hfile
  obtain ⟨hfound, -⟩ := found_modifyApp (f := App.addFile version f) w₁.unique hone₁ fun _ => rfl
  rw [← hafter] at hfound
  have hgated₂ : Gated shell k w₂.run := hgated.mono fun _ hx => hrun₂ (h₁.run hx)
  have hholding₂ : Holding shell finds w₂.run w₂.apps a.id version f none :=
    ⟨⟨a.addFile version f, hfound, rfl, huntouched.owned, huntouched.committed, huntouched.assignments,
      addFile_files hversions⟩, _, _, _, hmem⟩
  have hranks₂ : ranks w₂.issued = [] := by
    rw [hissued₂, h₁.issued]
    exact hranks
  apply ensures_bind
  refine ensures_wait (fun w' hlooked => hI w' (hsafe₂.looked hlooked)) ?_
  intro w₃ _ _ uri₃ h₃ _ _
  apply ensures_bind
  refine (ensures_sendAll (hsafe₂.looked h₃) hI hfinds (hgated₂.mono h₃.run) (hholding₂.mono h₃.apps h₃.run)).mono ?_
  rintro - w₄ ⟨hsafe₄, hgated₄, hholding₄, hranks₄⟩
  rw [h₃.issued, hranks₂] at hranks₄
  apply ensures_bind
  refine ensures_change hsafe₄ hI hfinds rfl rfl ⟨hgated₄, f, rfl, hholding₄⟩ ?_ ?_
  · intro n _
    rw [hranks₄]
    exact List.not_mem_nil
  intro r _ w₅ hchanges₅ _ hsafe₅ _ hrun₅ hissued₅
  have hholding₅ := hholding₄.mono hchanges₅.of_commit hrun₅
  apply ensures_bind
  refine ensures_wait (fun w' hlooked => hI w' (hsafe₅.looked hlooked)) ?_
  intro w₆ f₆ state₆ uri₆ h₆ hmem₆ hsuccess
  refine ⟨hsafe₅.looked h₆, (hgated₄.mono hrun₅).mono h₆.run, ?_, f, hholding₅.mono h₆.apps h₆.run, f₆, state₆, uri₆,
    hmem₆, hsuccess⟩
  rw [h₆.issued, hissued₅, ← hranks₄]
  rfl

/-- The one assignment is made, and read back. -/
theorem ensures_assignPilot {id : ℕ} (hsafe : Safe shell finds w₀ w) (hI : ∀ w', Safe shell finds w₀ w' → I w')
    (hfinds : finds (some displayName) = true) (hgated : Gated shell k w.run)
    (hholding : Holding shell finds w.run w.apps id version f (some version))
    (hcommit : SawCommit shell w.run id version f.id) (hpublished : SawPublished shell w.run id)
    (hranks : ranks w.issued = [1, 0]) :
    Ensures (effect finds) I (assignPilot shell k id) (fun _ w' => Complete shell k finds w'.apps) w := by
  apply ensures_bind
  refine ensures_change hsafe hI hfinds rfl rfl ⟨hgated, rfl, version, f, hholding, hcommit, hpublished⟩ ?_ ?_
  · rintro n ⟨⟩
    rw [hranks]
    decide
  intro r _ w₁ hchanges _ hsafe₁ _ _ _
  obtain ⟨filterType, -, hafter⟩ := hchanges.of_assign
  obtain ⟨a, hone, rfl, howned, hcommitted, hassignments, hversions⟩ := hholding.app
  obtain ⟨hfound, -⟩ := found_modifyApp (f := App.addAssignment k.pilotGroupId filterType) w.unique hone fun _ => rfl
  rw [← hafter] at hfound
  obtain ⟨hmem, -⟩ := mem_of_found hfound
  apply ensures_bind
  refine ensures_read rfl (by rintro ⟨⟩) (fun w' hlooked => hI w' (hsafe₁.looked hlooked)) ?_
  intro r readback w₂ h₂ _ hreads hr
  obtain rfl : readback = [requiredAssignment k.pilotGroupId filterType] := by
    cases r with
    | assignments list =>
      obtain rfl := Option.some.inj hr
      obtain ⟨b, hb, hid, rfl⟩ := hreads
      rw [eq_of_id w₁.unique hmem hb hid, App.addAssignment, hassignments]
      rfl
    | _ => cases hr
  apply ensures_bind
  apply ensures_need
  rintro ⟨-, hexact⟩
  refine ensures_read rfl (by rintro ⟨⟩) (fun w' hlooked => hI w' (hsafe₁.looked (h₂.trans hlooked))) ?_
  intro r _ w₃ h₃ _ _ _
  refine ⟨a.addAssignment k.pilotGroupId filterType, version, f, ?_, howned, hcommitted,
    ⟨⟨version, [f]⟩, ?_, rfl, rfl⟩, requiredAssignment k.pilotGroupId filterType, ?_, ?_⟩
  · rw [h₃.apps, h₂.apps, hfound]
  · rw [App.addAssignment, hversions]
    exact List.mem_singleton_self _
  · rw [App.addAssignment, hassignments]
    rfl
  · exact List.all_eq_true.mp hexact _ (List.mem_singleton_self _)

/-- An untouched app is brought to its end. -/
theorem ensures_deliver (hsafe : Safe shell finds w₀ w) (hlook : ∀ w', Looked w w' → I w')
    (hI : Open shell finds w.apps → ∀ w', Safe shell finds w₀ w' → I w') (hfinds : finds (some displayName) = true)
    (hgated : Gated shell k w.run) (hone : found finds w.apps = [a]) (huntouched : Untouched shell a) :
    Ensures (effect finds) I (deliver shell k a.id) (fun _ w' => Complete shell k finds w'.apps) w := by
  apply ensures_bind
  refine (ensures_contentVersion hsafe hlook hI hfinds hgated hone huntouched).mono ?_
  rintro version w₁ ⟨hopen, hsafe₁, hgated₁, a₁, hone₁, hid, huntouched₁, hversions₁⟩
  rw [← hid]
  apply ensures_bind
  refine (ensures_uploadFile hsafe₁ (hI hopen) hfinds hgated₁ hone₁ huntouched₁ hversions₁).mono ?_
  rintro - w₂ ⟨hsafe₂, hgated₂, hranks₂, f, hholding₂, hcommit₂⟩
  apply ensures_bind
  refine ensures_change hsafe₂ (hI hopen) hfinds rfl rfl ⟨hgated₂, f, hholding₂, hcommit₂⟩ ?_ ?_
  · rintro n ⟨⟩
    rw [hranks₂]
    decide
  intro r _ w₃ hchanges _ hsafe₃ _ hrun₃ hissued₃
  have hafter := hchanges.of_patchApp
  have hholding₃ : Holding shell finds w₃.run w₃.apps a₁.id version f (some version) := by
    obtain ⟨⟨b, hone₂, hid₂, howned, -, hassignments, hversions⟩, body, state, uri, hmem⟩ := hholding₂
    rw [← hid₂] at hafter
    obtain ⟨hfound, -⟩ := found_modifyApp (f := App.commitVersion version) w₂.unique hone₂ fun _ => rfl
    rw [← hafter] at hfound
    exact ⟨⟨b.commitVersion version, hfound, hid₂, howned, rfl, hassignments, hversions⟩, body, state, uri,
      hrun₃ hmem⟩
  apply ensures_bind
  refine ensures_waitPublished (fun w' hlooked => hI hopen w' (hsafe₃.looked hlooked)) ?_
  intro w₄ h₄ hpublished
  refine ensures_assignPilot (hsafe₃.looked h₄) (hI hopen) hfinds ((hgated₂.mono hrun₃).mono h₄.run)
    (hholding₃.mono h₄.apps h₄.run) ((hcommit₂.mono hrun₃).mono h₄.run) hpublished ?_
  rw [h₄.issued, hissued₃]
  exact congrArg (List.cons 1) hranks₂

/-- A committed app is looked at only. -/
theorem ensures_verifyExisting {publishingState : Text} {readback : List AppAssignment}
    (hlook : ∀ w', Looked w w' → I w') (hone : found finds w.apps = [a]) (howned : isOwnedApp shell a = true)
    (hcommitted : a.committedContentVersion = some version) (hreadback : readback = a.assignments) :
    Ensures (effect finds) I (verifyExisting shell k a publishingState readback version)
      (fun _ w' => Complete shell k finds w'.apps) w := by
  obtain ⟨ha, -⟩ := mem_of_found hone
  apply ensures_bind
  apply ensures_need
  rintro ⟨-, hlength, hexact⟩
  apply ensures_bind
  refine ensures_read rfl (by rintro ⟨⟩) hlook ?_
  intro r files w₁ h₁ _ hreads hr
  apply ensures_bind
  apply ensures_need
  rintro ⟨hcount, -⟩
  refine ensures_read rfl (by rintro ⟨⟩) (fun w' hlooked => hlook w' (h₁.trans hlooked)) ?_
  intro r' _ w₂ h₂ _ _ _
  obtain ⟨assignment, hassignment⟩ := List.length_eq_one_iff.mp hlength
  obtain ⟨⟨f, uploadState⟩, rfl⟩ := List.length_eq_one_iff.mp hcount
  have hversion : ∃ v ∈ a.versions, v.id = version ∧ v.files = [f] := by
    cases r with
    | files list =>
      obtain rfl := Option.some.inj hr
      obtain ⟨b, hb, hid, v, hv, hversion, hfiles⟩ := hreads
      rw [eq_of_id w.unique ha hb hid] at hv
      exact ⟨v, hv, hversion, hfiles.symm⟩
    | _ => cases hr
  refine ⟨a, version, f, ?_, howned, hcommitted, hversion, assignment, hreadback ▸ hassignment, ?_⟩
  · rw [h₂.apps, h₁.apps, hone]
  · rw [hassignment] at hexact
    exact List.all_eq_true.mp hexact _ (List.mem_singleton_self _)

/-- An app of this name is verified or brought to its end. -/
theorem ensures_resume (hsafe : Safe shell finds w₀ w) (hlook : ∀ w', Looked w w' → I w')
    (hI : Open shell finds w.apps → ∀ w', Safe shell finds w₀ w' → I w') (hfinds : finds (some displayName) = true)
    (hgated : Gated shell k w.run) (hone : found finds w.apps = [a]) :
    Ensures (effect finds) I (resume shell k a.id) (fun _ w' => Complete shell k finds w'.apps) w := by
  obtain ⟨ha, -⟩ := mem_of_found hone
  apply ensures_bind
  refine ensures_read rfl (by rintro ⟨⟩) hlook ?_
  rintro r ⟨b, publishingState, isAssigned⟩ w₁ h₁ _ hreads hr
  obtain rfl := asApp_eq hr
  obtain ⟨hb, hid⟩ := hreads
  obtain rfl := eq_of_id w.unique ha hb hid
  have hone₁ : found finds w₁.apps = [b] := by rw [h₁.apps, hone]
  apply ensures_bind
  apply ensures_need
  intro howned
  apply ensures_bind
  refine ensures_read rfl (by rintro ⟨⟩) (fun w' hlooked => hlook w' (h₁.trans hlooked)) ?_
  intro r readback w₂ h₂ _ hreads hr
  have hlooked := h₁.trans h₂
  have hone₂ : found finds w₂.apps = [b] := by rw [h₂.apps, hone₁]
  obtain rfl : readback = b.assignments := by
    cases r with
    | assignments list =>
      obtain rfl := Option.some.inj hr
      obtain ⟨c, hc, hid, rfl⟩ := hreads
      rw [eq_of_id w₁.unique (h₁.apps ▸ ha) hc hid]
    | _ => cases hr
  have hlook₂ (w' : World) (h : Looked w₂ w') : I w' := hlook w' (hlooked.trans h)
  rcases hcommitted : b.committedContentVersion with _ | version
  · apply ensures_bind
    apply ensures_need
    rintro ⟨hnone, -⟩
    refine ensures_deliver (hsafe.looked hlooked) hlook₂ ?_ hfinds (hgated.mono hlooked.run) hone₂
      ⟨howned, hcommitted, List.eq_nil_of_length_eq_zero hnone⟩
    rw [hlooked.apps]
    exact hI
  · exact ensures_verifyExisting hlook₂ hone₂ howned hcommitted rfl

theorem ensures_checkTarget {Q : Unit → World → Prop} (hlook : ∀ w', Looked w w' → I w')
    (h : ∀ w', Looked w w' → Q () w') : Ensures (effect finds) I (checkTarget shell k) Q w := by
  apply ensures_bind
  refine ensures_read rfl (by rintro ⟨⟩) hlook fun _ _ w₁ h₁ _ _ _ => ?_
  apply ensures_bind
  refine ensures_read rfl (by rintro ⟨⟩) (fun w' h' => hlook w' (h₁.trans h')) fun _ context w₂ h₂ _ _ _ => ?_
  have h₂ := h₁.trans h₂
  apply ensures_bind
  apply ensures_need
  intro _
  apply ensures_bind
  refine ensures_read rfl (by rintro ⟨⟩) (fun w' h' => hlook w' (h₂.trans h')) fun _ group w₃ h₃ _ _ _ => ?_
  have h₃ := h₂.trans h₃
  apply ensures_bind
  apply ensures_need
  intro _
  apply ensures_bind
  apply ensures_need
  intro _
  apply ensures_bind
  refine ensures_read rfl (by rintro ⟨⟩) (fun w' h' => hlook w' (h₃.trans h')) fun _ members w₄ h₄ _ _ _ => ?_
  rcases members with _ | ⟨member, _ | ⟨member', rest⟩⟩
  · trivial
  · exact ensures_need fun _ => h w₄ (h₃.trans h₄)
  · trivial

theorem asReport_eq {r : Reply} {report : StatusReport} (h : r.asReport = some report) : r = .report report := by
  cases r with
  | report _ => rw [Option.some.inj h]
  | _ => cases h

theorem asInstant_eq {r : Reply} {t : ℤ} (h : r.asInstant = some t) : r = .instant t := by
  cases r with
  | instant _ => rw [Option.some.inj h]
  | _ => cases h

theorem ensures_checkReport {Q : Unit → World → Prop} (hlook : ∀ w', Looked w w' → I w')
    (h : ∀ w', Looked w w' → Gated shell k w'.run → Q () w') :
    Ensures (effect finds) I (checkReport shell k) Q w := by
  apply ensures_bind
  refine ensures_read rfl (by rintro ⟨⟩) hlook fun _ _ w₁ h₁ _ _ _ => ?_
  apply ensures_bind
  refine ensures_read rfl (by rintro ⟨⟩) (fun w' h' => hlook w' (h₁.trans h')) ?_
  intro _ report w₂ h₂ hreport _ hr
  obtain rfl := asReport_eq hr
  have hlooked := h₁.trans h₂
  apply ensures_bind
  refine ensures_read rfl (by rintro ⟨⟩) (fun w' h' => hlook w' (hlooked.trans h')) ?_
  intro _ now w₃ h₃ hnow _ hr
  obtain rfl := asInstant_eq hr
  apply ensures_bind
  refine ensures_ofOption fun collected hcollected => ?_
  apply ensures_bind
  apply ensures_need
  intro hage
  apply ensures_bind
  apply ensures_need
  intro hselected
  apply ensures_bind
  refine ensures_ofOption fun verified hverified => ?_
  apply ensures_need
  rintro ⟨hclaimed, hready⟩
  exact h w₃ (hlooked.trans h₃) ⟨report, now, collected, verified, h₃.run hreport, hnow, hcollected, hage, hselected,
    hverified, hclaimed, hready⟩

/-- With `-Apply`, after the report was checked. -/
theorem ensures_applyPackage (hsafe : Safe shell finds w₀ w) (hlook : ∀ w', Looked w w' → I w')
    (hI : Open shell finds w.apps → ∀ w', Safe shell finds w₀ w' → I w') (hfinds : finds (some displayName) = true)
    (hgated : Gated shell k w.run) :
    Ensures (effect finds) I (applyPackage shell k) (fun _ w' => Complete shell k finds w'.apps) w := by
  apply ensures_bind
  refine ensures_checkTarget hlook fun w₁ h₁ => ?_
  apply ensures_bind
  refine ensures_read rfl (by rintro ⟨⟩) (fun w' h' => hlook w' (h₁.trans h')) ?_
  intro r existing w₂ h₂ _ hreads hr
  have hlooked := h₁.trans h₂
  obtain rfl : existing = (found finds w₁.apps).map App.id := by
    cases r with
    | apps ids =>
      obtain rfl := Option.some.inj hr
      exact hreads
    | _ => cases hr
  have hsafe₂ := hsafe.looked hlooked
  have hlook₂ (w' : World) (h : Looked w₂ w') : I w' := hlook w' (hlooked.trans h)
  have hI₂ : Open shell finds w₂.apps → ∀ w', Safe shell finds w₀ w' → I w' := by
    rw [hlooked.apps]
    exact hI
  rw [← h₂.apps]
  rcases hfound : found finds w₂.apps with _ | ⟨a, _ | ⟨b, rest⟩⟩
  · -- The app is made, and is then untouched.
    apply ensures_bind
    refine ensures_change hsafe₂ (hI₂ (Or.inl hfound)) hfinds rfl rfl ⟨hgated.mono hlooked.run, rfl, hfound⟩
      (by rintro n ⟨⟩) ?_
    rintro r ⟨a, state, isAssigned⟩ w₃ hchanges hr hsafe₃ _ hrun₃ _
    obtain rfl := asApp_eq hr
    obtain ⟨id, state', isAssigned', happ, hafter⟩ := hchanges.of_createApp
    obtain ⟨rfl, rfl, rfl⟩ := Reply.app.inj happ
    have hone : found finds w₃.apps = [(appBody shell).app id] := by
      rw [hafter, found, List.filter_append, ← found, hfound]
      simp [AppBody.app, appBody, hfinds]
    refine ensures_deliver hsafe₃ (fun w' h => hI₂ (Or.inl hfound) w' (hsafe₃.looked h))
      (fun _ => hI₂ (Or.inl hfound)) hfinds ((hgated.mono hlooked.run).mono hrun₃) hone ⟨?_, rfl, rfl⟩
    simp [isOwnedApp, AppBody.app, appBody, Comparison.is, shell.inspector.comparison.refl]
  · exact ensures_resume hsafe₂ hlook₂ hI₂ hfinds (hgated.mono hlooked.run) hfound
  · trivial

/-- A run, from its start on. -/
theorem ensures_invokePackage (hsafe : Safe shell finds w₀ w) (hfinds : finds (some displayName) = true) :
    Ensures (effect finds) (fun w' => Safe shell finds w₀ w' ∧ (w'.issued = w.issued ∨ Open shell finds w.apps))
      (invokePackage shell k) (fun _ w' => Complete shell k finds w'.apps ∨
        w'.issued = w.issued ∧ (k.apply = false ∨ (Call.shouldProcess, Reply.yes false) ∈ w'.run)) w := by
  apply ensures_bind
  apply ensures_invoke
  rintro r w₁ ⟨-, hissued, happs, -⟩
  have hsafe₁ := hsafe.same happs hissued
  have hlook (w' : World) (h : Looked w₁ w') :
      Safe shell finds w₀ w' ∧ (w'.issued = w.issued ∨ Open shell finds w.apps) :=
    ⟨hsafe₁.looked h, Or.inl (h.issued.trans hissued)⟩
  refine ⟨hlook w₁ (.refl w₁), fun _ _ => ?_⟩
  apply ensures_bind
  refine ensures_checkReport hlook fun w₂ h₂ hgated => ?_
  split_ifs with happly
  · apply ensures_bind
    refine ensures_read rfl (by rintro ⟨⟩) (fun w' h => hlook w' (h₂.trans h)) ?_
    intro r confirmed w₃ h₃ hmem _ hr
    have hlooked := h₂.trans h₃
    cases confirmed with
    | true =>
      refine (ensures_applyPackage (hsafe₁.looked hlooked) (fun w' h => hlook w' (hlooked.trans h)) ?_ hfinds
        (hgated.mono h₃.run)).mono fun _ _ hcomplete => Or.inl hcomplete
      intro hopen w' hsafe'
      rw [hlooked.apps, happs] at hopen
      exact ⟨hsafe', Or.inr hopen⟩
    | false =>
      have hno : r = .yes false := by
        cases r with
        | yes b => rw [Option.some.inj hr]
        | _ => cases hr
      rw [hno] at hmem
      exact Or.inr ⟨hlooked.issued.trans hissued, Or.inr hmem⟩
  · exact Or.inr ⟨h₂.issued.trans hissued, Or.inl (Bool.eq_false_iff.mpr happly)⟩

end Phases

section Sample

def sampleShell : Shell where
  inspector := ordinalInspector
  crypto := sampleCrypto
  lock := ⟨text "c0ffee", text "com.northpolesec.santa", text "2026.8", text "santa-2026.8.pkg", 3⟩

/-- The pilot of the sample report. -/
def samplePilot : Parameters where
  tenantId := text "4b2f"
  pilotGroupId := text "9f"
  expectedPilotGroupName := text "Santa pilot"
  expectedDeviceName := text "mac-01"
  expectedAccount := text "ada@contoso.example"
  apply := true
  fileName := text "santa-2026.8.pkg"
  package := sampleFile

def byName (name : Option Text) : Bool := Comparison.ordinal.is name displayName

theorem effect_read {finds : Option Text → Bool} {call : Call} {r : Reply} {apps : List App}
    {unique : (apps.map App.id).Nodup} {run : List (Call × Reply)} {issued : List Issue} (hread : call.mutates = false)
    (hstart : call ≠ .start) (hreads : Reads finds apps call r) :
    effect finds call r ⟨apps, unique, run, issued⟩ ⟨apps, unique, (call, r) :: run, issued⟩ := by
  refine ⟨?_, ?_⟩
  · rw [if_neg hstart]
  · rw [if_neg (by simp [hread])]
    exact ⟨rfl, rfl, hreads⟩

/-- What a run has seen before it makes the app. -/
def sampleRun : List (Call × Reply) :=
  [(.findApps, .apps []), (.getMembers, .members [⟨text "#microsoft.graph.device", some (text "mac-01"), some (text "macOS")⟩]),
    (.getGroup, .group ⟨some (text "Santa pilot"), true, false, [], none⟩),
    (.getContext, .context (some ⟨text "4b2f", text "ada@contoso.example", []⟩)), (.connect, .done),
    (.shouldProcess, .yes true), (.utcNow, .instant 6), (.readReport, .report sampleReport), (.testReceipt, .done),
    (.start, .done)]

/-- The reply to the creation of the app was lost; the app is there. -/
def lostCreation : World where
  apps := [(appBody sampleShell).app 4]
  unique := List.nodup_singleton _
  run := (.createApp (appBody sampleShell), .error) :: sampleRun
  issued := [⟨.createApp (appBody sampleShell), [], sampleRun⟩]

theorem effect_lost : effect byName (.createApp (appBody sampleShell)) .error ⟨[], List.nodup_nil, sampleRun, []⟩
    lostCreation := by
  refine ⟨rfl, ?_⟩
  have hmutates : (Call.createApp (appBody sampleShell)).mutates = true := rfl
  rw [if_pos hmutates]
  refine ⟨rfl, Or.inr ⟨rfl, Or.inr ⟨.app ((appBody sampleShell).app 4) [] false, ?_⟩⟩⟩
  exact .createApp (appBody sampleShell) 4 [] false [] (by rintro a ⟨⟩)

theorem lostCreation_run : Exec (effect byName) (invokePackage sampleShell samplePilot) ⟨[], List.nodup_nil, [], []⟩
    .failed lostCreation := by
  have hresult : ((testSantaIntuneProfileReport ordinalInspector sampleReport).any Readiness.deliveryReadiness) = true := by
    decide +kernel
  obtain ⟨verified, hverified, hready⟩ := Option.any_eq_true _ _ |>.mp hresult
  have hstart : effect byName .start .done ⟨[], List.nodup_nil, [], []⟩ ⟨[], List.nodup_nil, [(.start, .done)], []⟩ :=
    ⟨rfl, rfl, rfl, trivial⟩
  refine .bind (exec_invoke hstart rfl) ?_
  refine .bind (.bind (exec_invoke (effect_read (r := .done) rfl (by rintro ⟨⟩) trivial) rfl)
    (.bind (exec_invoke (effect_read (r := .report sampleReport) rfl (by rintro ⟨⟩) trivial) rfl)
    (.bind (exec_invoke (effect_read (r := .instant 6) rfl (by rintro ⟨⟩) trivial) rfl)
    (.bind (exec_ofOption (a := 6) (by decide))
    (.bind (exec_need (by decide))
    (.bind (exec_need (by decide +kernel))
    (.bind (exec_ofOption hverified) (exec_need ⟨rfl, hready⟩)))))))) ?_
  refine .bind (exec_invoke (effect_read (r := .yes true) rfl (by rintro ⟨⟩) trivial) rfl) ?_
  refine .bind (.bind (exec_invoke (effect_read (r := .done) rfl (by rintro ⟨⟩) trivial) rfl)
    (.bind (exec_invoke (effect_read (r := .context (some ⟨text "4b2f", text "ada@contoso.example", []⟩)) rfl (by rintro ⟨⟩) trivial) rfl)
    (.bind (exec_need (by decide +kernel))
    (.bind (exec_invoke (effect_read (r := .group ⟨some (text "Santa pilot"), true, false, [], none⟩) rfl (by rintro ⟨⟩) trivial) rfl)
    (.bind (exec_need (by decide +kernel))
    (.bind (exec_need (by decide +kernel))
    (.bind (exec_invoke (effect_read (r := .members
      [⟨text "#microsoft.graph.device", some (text "mac-01"), some (text "macOS")⟩]) rfl (by rintro ⟨⟩) trivial) rfl)
      (exec_need (by decide +kernel))))))))) ?_
  refine .bind (exec_invoke (effect_read (r := .apps []) rfl (by rintro ⟨⟩) rfl) rfl) ?_
  exact exec_invoke_none (r := .error) effect_lost rfl

end Sample
end Intune.Package
