import AzdSanta.Intune.Profiles

/-! Runs of the profile script, each of which can stop anywhere, are safe and come to the desired
state. -/
namespace Intune
open Python PowerShell Processes Sequential

section Statements
variable (shell : Shell) (k : Parameters)

/-- The profiles with the display name of `spec`. -/
def named (spec : Spec) (profiles : List Profile) : List Profile :=
  profiles.filter fun p => shell.comparison.is p.displayName spec.displayName

/-- The display name, whatever its case, and exactly the description of `spec`. -/
structure Carries (spec : Spec) (p : Profile) : Prop where
  displayName : shell.comparison.is p.displayName spec.displayName = true
  description : shell.comparison.isExactly p.description spec.description = true

/-- The payload and the file names of `spec`. -/
structure Holds (spec : Spec) (p : Profile) : Prop where
  payload : testEquivalentPayload shell (castString p.payload) spec.payload = true
  payloadName : shell.comparison.ceq (castString p.payloadName) spec.fileName = true
  payloadFileName : shell.comparison.ceq (castString p.payloadFileName) spec.fileName = true

/-- Assigned to the pilot group without a filter and to nothing else. -/
def OnlyPilot (p : Profile) : Prop :=
  ∃ a, p.assignments = [a] ∧ testExactPilotAssignment shell k.pilotGroupId a = true

/-- One profile for `spec`, as it should be. -/
def InPlace (profiles : List Profile) (spec : Spec) : Prop :=
  ∃ p, named shell spec profiles = [p] ∧ Carries shell spec p ∧ Holds shell spec p ∧ OnlyPilot shell k p

/-- A change that may be asked for while these are the profiles. -/
def Permitted (call : Call) (profiles : List Profile) : Prop :=
  ∃ spec ∈ k.desired, match call with
    | .createProfile body => body = spec.body ∧ named shell spec profiles = []
    | .patchProfile id body => body = spec.body ∧ ∃ p ∈ profiles, p.id = id ∧ Carries shell spec p
    | .assign id groupId => groupId = k.pilotGroupId ∧ ∃ p ∈ profiles, p.id = id ∧ Carries shell spec p
    | _ => False

end Statements

section Names
variable {shell : Shell} {profiles : List Profile} {A B : Spec}

/-- No two of the five names are the same, whatever the case. -/
theorem desired_apart (c : Comparison) (k : Parameters) :
    k.desired.Pairwise fun a b => c.eq a.displayName b.displayName = false := by
  have hnames : (profileFiles.map fun f => text "Santa " ++ releaseTag ++ text " - " ++ profileId f).Pairwise
      fun a b => a.all isPrintable = true ∧ b.all isPrintable = true ∧ a.map lowerAscii ≠ b.map lowerAscii := by
    decide
  refine List.pairwise_map.mpr ((List.pairwise_map.mp hnames).imp ?_)
  rintro a b ⟨ha, hb, hne⟩
  rcases h : c.eq (specOf k.payload a).displayName (specOf k.payload b).displayName
  · rfl
  · exact absurd (c.ascii _ _ ha hb h) hne

/-- In printable ASCII the operators leave no choice: the name is the same up to its case, and the
description is the same. -/
theorem Carries.literal {k : Parameters} (hA : A ∈ k.desired) {p : Profile} (h : Carries shell A p) :
    (∀ s, p.displayName = some s → s.all isPrintable → s.map lowerAscii = A.displayName.map lowerAscii) ∧
      ∀ s, p.description = some s → s.all isPrintable → s = A.description := by
  have hprintable : ∀ f ∈ profileFiles,
      (text "Santa " ++ releaseTag ++ text " - " ++ profileId f).all isPrintable = true ∧
      (text "[azd-santa:" ++ releaseTag ++ 58 :: profileId f ++
        text "] Template-owned Intune profile.").all isPrintable = true := by
    decide
  obtain ⟨f, hf, rfl⟩ := List.mem_map.mp hA
  obtain ⟨hname, hdescription⟩ := hprintable f hf
  refine ⟨fun s hs hprint => ?_, fun s hs hprint => ?_⟩
  · have hsame := h.displayName
    rw [hs] at hsame
    exact shell.comparison.ascii _ _ hprint hname hsame
  · have hsame := h.description
    rw [hs] at hsame
    exact shell.comparison.cascii _ _ hprint hdescription hsame

/-- A profile has the name of one of two specifications that are apart. -/
theorem is_apart (h : shell.comparison.eq A.displayName B.displayName = false) {name : Option Text}
    (hA : shell.comparison.is name A.displayName = true) : shell.comparison.is name B.displayName = false := by
  rcases name with _ | name
  · rfl
  rcases hB : shell.comparison.eq name B.displayName
  · exact hB
  · have hsame := shell.comparison.trans _ _ _ (shell.comparison.symm _ _ hA) hB
    rw [hsame] at h
    cases h

theorem eq_of_id (hunique : (profiles.map Profile.id).Nodup) {p q : Profile} (hp : p ∈ profiles)
    (hq : q ∈ profiles) (hid : q.id = p.id) : q = p :=
  List.inj_on_of_nodup_map hunique hq hp hid

theorem mem_of_named {p : Profile} (h : named shell A profiles = [p]) :
    p ∈ profiles ∧ shell.comparison.is p.displayName A.displayName = true := by
  have hmem : p ∈ named shell A profiles := by
    rw [h]
    exact List.mem_singleton_self p
  simpa [named] using List.mem_filter.mp hmem

theorem named_modify {p : Profile} {f : Profile → Profile} (hunique : (profiles.map Profile.id).Nodup)
    (hp : p ∈ profiles)
    (hname : shell.comparison.is (f p).displayName B.displayName = shell.comparison.is p.displayName B.displayName) :
    named shell B (modify p.id f profiles) =
      (named shell B profiles).map fun q => if q.id = p.id then f q else q := by
  unfold named modify
  rw [List.filter_map]
  congr 1
  refine List.filter_congr fun q hq => ?_
  simp only [Function.comp_apply]
  split_ifs with hid
  · rw [eq_of_id hunique hp hq hid]
    exact hname
  · rfl

theorem named_modify_own {p : Profile} {f : Profile → Profile} (hunique : (profiles.map Profile.id).Nodup)
    (h : named shell A profiles = [p]) (hname : shell.comparison.is (f p).displayName A.displayName = true) :
    named shell A (modify p.id f profiles) = [f p] := by
  obtain ⟨hp, hA⟩ := mem_of_named h
  rw [named_modify hunique hp (hname.trans hA.symm), h]
  simp

theorem named_modify_other {p : Profile} {f : Profile → Profile} (hunique : (profiles.map Profile.id).Nodup)
    (hp : p ∈ profiles) (hB : shell.comparison.is p.displayName B.displayName = false)
    (hname : shell.comparison.is (f p).displayName B.displayName = false) :
    named shell B (modify p.id f profiles) = named shell B profiles := by
  rw [named_modify hunique hp (hname.trans hB.symm)]
  refine (List.map_congr_left fun q hq => ?_).trans (List.map_id _)
  obtain ⟨hq, hname⟩ := List.mem_filter.mp hq
  refine if_neg fun hid => ?_
  rw [eq_of_id hunique hp hq hid, hB] at hname
  cases hname

end Names

section Preflight
variable {shell : Shell} {k : Parameters} {w : World}

/-- What the preflight has found of a profile that exists. -/
structure Known (shell : Shell) (k : Parameters) (item : Item) (p : Profile) : Prop where
  description : shell.comparison.isExactly p.description item.spec.description = true
  pilot : p.assignments.all (testExactPilotAssignment shell k.pilotGroupId) = true
  assigned : if item.assigned then p.assignments.length = 1 else p.assignments = []
  action : item.action = .verify ∧ Holds shell item.spec p ∨ item.action = .update ∧ ¬ Holds shell item.spec p

/-- An item says what is there. -/
structure Fits (shell : Shell) (k : Parameters) (profiles : List Profile) (item : Item) : Prop where
  named : named shell item.spec profiles = item.remote.toList
  absent : item.remote = none → item.action = .create ∧ item.assigned = false
  known : ∀ p, item.remote = some p → Known shell k item p

/-- A read leaves the world as it is. -/
theorem ensures_read {α : Type} {I : World → Prop} {call : Call} {value : Reply → Option α}
    {Q : α → World → Prop} (hI : I w) (hread : call.mutates = false)
    (h : ∀ r a, Reads w.profiles call r → value r = some a → Q a w) :
    Ensures (effect shell) I (invoke call value) Q w := by
  refine ensures_invoke fun r w' hop => ?_
  rw [effect, if_neg (by simp [hread])] at hop
  obtain ⟨rfl, hreads⟩ := hop
  exact ⟨hI, fun a ha => h r a hreads ha⟩

theorem ensures_chooseAction {spec : Spec} {p : Profile} {Q : Action → World → Prop}
    (hverify : Holds shell spec p → Q .verify w) (hupdate : ¬ Holds shell spec p → Q .update w) :
    Ensures (effect shell) (fun w' => w' = w) (chooseAction shell spec p) Q w := by
  refine ensures_bind (ensures_need fun _ => ?_)
  split_ifs with hsame
  · exact hverify ⟨hsame.1, hsame.2.1, hsame.2.2⟩
  · exact hupdate fun h => hsame ⟨h.payload, h.payloadName, h.payloadFileName⟩

theorem ensures_inspectRemote {spec : Spec} {p : Profile} (h : named shell spec w.profiles = [p]) :
    Ensures (effect shell) (fun w' => w' = w) (inspectRemote shell k spec p.id)
      (fun item w' => w' = w ∧ item.spec = spec ∧ Fits shell k w.profiles item) w := by
  obtain ⟨hp, -⟩ := mem_of_named h
  refine ensures_bind (ensures_read rfl rfl fun r remote hreads hr => ?_)
  have hremote : remote = p := by
    cases r with
    | profile q =>
      obtain rfl := Option.some.inj hr
      exact eq_of_id w.unique hp hreads.1 hreads.2
    | _ => cases hr
  subst hremote
  refine ensures_bind (ensures_need fun hkind => ?_)
  refine ensures_bind (ensures_read rfl rfl fun r page hreads hr => ?_)
  obtain ⟨assignments, more⟩ := page
  refine ensures_bind (ensures_need fun hmore => ensures_bind (ensures_need fun hpilot => ?_))
  have hassignments : assignments = remote.assignments := by
    cases r with
    | assignments page more' =>
      obtain ⟨rfl, rfl⟩ := Prod.mk.inj (Option.some.inj hr)
      obtain ⟨q, hq, hid, rfl⟩ := hreads hmore
      rw [eq_of_id w.unique hp hq hid]
    | _ => cases hr
  subst hassignments
  have hassigned : if decide (remote.assignments.length = 1) then remote.assignments.length = 1
      else remote.assignments = [] := by
    split_ifs with hone
    · exact of_decide_eq_true hone
    · have hlength := hpilot.1
      have hnot : remote.assignments.length ≠ 1 := fun h => hone (decide_eq_true h)
      exact List.length_eq_zero_iff.mp (by omega)
  refine ensures_bind (ensures_chooseAction (fun hholds => ?_) fun hholds => ?_)
  · exact ⟨rfl, rfl, h, nofun, fun q hq => by
      obtain rfl := Option.some.inj hq
      exact ⟨hkind.2, hpilot.2, hassigned, Or.inl ⟨rfl, hholds⟩⟩⟩
  · exact ⟨rfl, rfl, h, nofun, fun q hq => by
      obtain rfl := Option.some.inj hq
      exact ⟨hkind.2, hpilot.2, hassigned, Or.inr ⟨rfl, hholds⟩⟩⟩

theorem ensures_inspect (spec : Spec) :
    Ensures (effect shell) (fun w' => w' = w) (inspect shell k w.profiles spec)
      (fun item w' => w' = w ∧ item.spec = spec ∧ Fits shell k w.profiles item) w := by
  refine ensures_bind (ensures_need fun howned => ensures_bind (ensures_need fun hone => ?_))
  -- nobody else uses the name
  have hsame : (named shell spec w.profiles).filter (fun p => shell.comparison.is p.description spec.description) =
      named shell spec w.profiles :=
    List.filter_sublist.eq_of_length howned.symm
  change (List.filter _ (named shell spec w.profiles)).length ≤ 1 at hone
  rw [hsame] at hone
  have hhead : ((named shell spec w.profiles).filter
      (fun p => shell.comparison.is p.description spec.description)).head? = (named shell spec w.profiles).head? := by
    rw [hsame]
  unfold named at hhead
  rw [hhead, ← named]
  rcases hnamed : named shell spec w.profiles with _ | ⟨p, rest⟩
  · refine ⟨rfl, rfl, hnamed, fun _ => ⟨rfl, rfl⟩, ?_⟩
    rintro _ ⟨⟩
  · have hrest : rest = [] := by
      rw [hnamed, List.length_cons] at hone
      exact List.length_eq_zero_iff.mp (by omega)
    subst hrest
    exact ensures_inspectRemote hnamed

theorem ensures_connected {Q : Option Context → World → Prop} (h : ∀ context, Q context w) :
    Ensures (effect shell) (fun w' => w' = w) (connected shell k) Q w := by
  refine ensures_bind (ensures_read rfl rfl fun _ context _ _ => ?_)
  split_ifs
  · exact h context
  · exact ensures_bind (ensures_read rfl rfl fun _ _ _ _ => ensures_read rfl rfl fun _ context _ _ => h context)

theorem ensures_checkGroup {Q : Unit → World → Prop} (h : Q () w) :
    Ensures (effect shell) (fun w' => w' = w) (checkGroup shell k) Q w := by
  refine ensures_bind (ensures_read rfl rfl fun _ _ _ _ => ?_)
  refine ensures_bind (ensures_need fun _ => ensures_bind (ensures_need fun _ => ?_))
  refine ensures_bind (ensures_need fun _ => ensures_bind (ensures_read rfl rfl fun _ members _ _ => ?_))
  split
  · exact ensures_need fun _ => h
  · trivial

/-- The preflight changes nothing, and what it returns describes the tenant. -/
theorem ensures_preflight (shell : Shell) (k : Parameters) (w : World) :
    Ensures (effect shell) (fun w' => w' = w) (preflight shell k) (fun items w' => w' = w ∧
      List.Forall₂ (fun spec item => item.spec = spec ∧ Fits shell k w.profiles item) k.desired items) w := by
  refine ensures_bind (ensures_connected fun context => ensures_bind (ensures_need fun _ => ?_))
  refine ensures_bind (ensures_checkGroup (ensures_bind (ensures_read rfl rfl fun r page hreads hr => ?_)))
  obtain ⟨page, more⟩ := page
  refine ensures_bind (ensures_need fun hmore => ?_)
  have hpage : page = w.profiles := by
    cases r with
    | profiles page' more' =>
      obtain ⟨rfl, rfl⟩ := Prod.mk.inj (Option.some.inj hr)
      exact hreads hmore
    | _ => cases hr
  subst hpage
  refine ensures_bind ((ensures_mapM (fun specs items w' => w' = w ∧ ∃ before, before ++ specs = k.desired ∧
      List.Forall₂ (fun spec item => item.spec = spec ∧ Fits shell k w.profiles item) before items)
    ?_ k.desired [] ⟨rfl, [], rfl, .nil⟩).mono fun items w' hitems => ?_)
  · rintro spec specs items w' ⟨rfl, before, hsplit, hitems⟩
    refine (ensures_inspect spec).mono fun item w' hitem => ⟨hitem.1, before ++ [spec], ?_, ?_⟩
    · simpa using hsplit
    · exact List.rel_append hitems (.cons hitem.2 .nil)
  obtain ⟨rfl, before, hsplit, hitems⟩ := hitems
  refine ensures_bind (ensures_need fun _ => ⟨rfl, ?_⟩)
  rw [List.append_nil] at hsplit
  exact hsplit ▸ hitems

end Preflight

section Changes
variable {shell : Shell} {k : Parameters} {w w' : World} {A B : Spec}

theorem desired_cases (hA : A ∈ k.desired) (hB : B ∈ k.desired) :
    A = B ∨ shell.comparison.eq A.displayName B.displayName = false := by
  have hsymm : Std.Symm fun a b : Spec => shell.comparison.eq a.displayName b.displayName = false := by
    refine ⟨fun a b h => ?_⟩
    rcases hba : shell.comparison.eq b.displayName a.displayName
    · rfl
    · rw [shell.comparison.symm _ _ hba] at h
      cases h
  by_cases h : A = B
  · exact Or.inl h
  · exact Or.inr ((desired_apart shell.comparison k).forall hA hB h)

/-- A change for the sake of `A`, which has at most one profile. -/
inductive Concerns (shell : Shell) (k : Parameters) (A : Spec) (profiles : List Profile) : Call → Prop
  | create (hnone : named shell A profiles = []) : Concerns shell k A profiles (.createProfile A.body)
  | patch (p : Profile) (hone : named shell A profiles = [p])
      (hexact : shell.comparison.isExactly p.description A.description = true) :
      Concerns shell k A profiles (.patchProfile p.id A.body)
  | assign (p : Profile) (hone : named shell A profiles = [p])
      (hexact : shell.comparison.isExactly p.description A.description = true) :
      Concerns shell k A profiles (.assign p.id k.pilotGroupId)

theorem Concerns.permitted {call : Call} {profiles : List Profile} (hA : A ∈ k.desired)
    (h : Concerns shell k A profiles call) : Permitted shell k call profiles := by
  refine ⟨A, hA, ?_⟩
  cases h with
  | create hnone => exact ⟨rfl, hnone⟩
  | patch p hone hexact =>
    exact ⟨rfl, p, (mem_of_named hone).1, rfl, (mem_of_named hone).2, hexact⟩
  | assign p hone hexact =>
    exact ⟨rfl, p, (mem_of_named hone).1, rfl, (mem_of_named hone).2, hexact⟩

/-- What a change leaves of the profile of `A`. -/
def Result (shell : Shell) (k : Parameters) (A : Spec) (profiles : List Profile) : Call → ℕ → Profile → Prop
  | .createProfile _, id, p => ∃ stored, Stores shell A.payload stored ∧ p = A.body.profile id stored
  | .patchProfile _ _, _, p => ∃ q stored, named shell A profiles = [q] ∧ Stores shell A.payload stored ∧
      p = A.body.patch stored q
  | .assign _ _, _, p => ∃ q filterType, named shell A profiles = [q] ∧
      (filterType = none ∨ filterType = some (text "none")) ∧
      p = { q with assignments := [pilotAssignment k.pilotGroupId filterType] }
  | _, _, _ => False

theorem is_self (shell : Shell) (A : Spec) : shell.comparison.is (some A.displayName) A.displayName = true :=
  shell.comparison.refl _

/-- The other names keep their profiles, and `A` has one. -/
theorem Changes.named {call : Call} {id : ℕ} {before after : List Profile} (h : Changes shell call id before after)
    (hunique : (before.map Profile.id).Nodup) (hcall : Concerns shell k A before call) :
    (∃ p, named shell A after = [p] ∧ Result shell k A before call id p) ∧
      ∀ B : Spec, shell.comparison.eq A.displayName B.displayName = false →
        named shell B after = named shell B before := by
  cases h with
  | create body id stored profiles hfresh hstored =>
    cases hcall with
    | create hnone =>
      refine ⟨⟨_, ?_, stored, hstored, rfl⟩, fun B hB => ?_⟩
      · rw [Intune.named, List.filter_append, ← Intune.named, hnone]
        simp [Body.profile, Spec.body, is_self]
      · rw [Intune.named, List.filter_append, ← Intune.named]
        have hnot := is_apart hB (is_self shell A)
        simp [Body.profile, Spec.body, hnot]
  | patch body id stored profiles hstored =>
    cases hcall with
    | patch p hone hexact =>
      obtain ⟨hp, hA⟩ := mem_of_named hone
      refine ⟨⟨_, named_modify_own hunique hone (is_self shell A), p, stored, hone, hstored, rfl⟩, fun B hB => ?_⟩
      exact named_modify_other hunique hp (is_apart hB hA) (is_apart hB (is_self shell A))
  | assign groupId id filterType profiles hfilter =>
    cases hcall with
    | assign p hone hexact =>
      obtain ⟨hp, hA⟩ := mem_of_named hone
      refine ⟨⟨_, named_modify_own hunique hone hA, p, filterType, hone, hfilter, rfl⟩, fun B hB => ?_⟩
      exact named_modify_other hunique hp (is_apart hB hA) (is_apart hB hA)

end Changes

section Application
variable {shell : Shell} {k : Parameters} {w₀ w : World} {A : Spec}

/-- Since `w₀` only permitted changes were asked for, and no name was given to a second profile. -/
structure Tame (shell : Shell) (k : Parameters) (w₀ w : World) : Prop where
  issued : ∀ entry ∈ w.issued, entry ∈ w₀.issued ∨ Permitted shell k entry.1 entry.2
  count : ∀ spec ∈ k.desired,
    (named shell spec w.profiles).length ≤ max (named shell spec w₀.profiles).length 1

theorem Tame.refl (shell : Shell) (k : Parameters) (w : World) : Tame shell k w w :=
  ⟨fun _ h => Or.inl h, fun _ _ => le_max_left _ _⟩

/-- The names other than that of `A` keep their profiles. -/
def Aside (shell : Shell) (A : Spec) (w w' : World) : Prop :=
  ∀ B : Spec, shell.comparison.eq A.displayName B.displayName = false →
    named shell B w'.profiles = named shell B w.profiles

theorem Tame.changed {call : Call} {r : Reply} {w' : World} (h : Tame shell k w₀ w) (hA : A ∈ k.desired)
    (hmutates : call.mutates = true) (hcall : Concerns shell k A w.profiles call)
    (hop : effect shell call r w w') : Tame shell k w₀ w' := by
  rw [effect, if_pos hmutates] at hop
  obtain ⟨hissued, hanswer⟩ := hop
  constructor
  · intro entry hentry
    rw [hissued] at hentry
    rcases List.mem_cons.mp hentry with rfl | hentry
    · exact Or.inr (hcall.permitted hA)
    · exact h.issued entry hentry
  · intro spec hspec
    have hchanges : w'.profiles = w.profiles ∨ ∃ id, Changes shell call id w.profiles w'.profiles := by
      cases r with
      | created id => exact Or.inr ⟨id, hanswer.2.2⟩
      | done => exact Or.inr hanswer.2
      | error => exact hanswer
      | _ => exact absurd hanswer id
    rcases hchanges with hsame | ⟨id, hchanges⟩
    · rw [hsame]
      exact h.count spec hspec
    · obtain ⟨⟨p, hp, -⟩, hothers⟩ := hchanges.named w.unique hcall
      rcases @desired_cases shell k A spec hA hspec with rfl | happart
      · rw [hp]
        exact le_max_right _ _
      · rw [hothers spec happart]
        exact h.count spec hspec

/-- A change that is answered leaves one profile for `A`. -/
theorem ensures_change {α : Type} {call : Call} {value : Reply → Option α} {Q : α → World → Prop}
    (h : Tame shell k w₀ w) (hA : A ∈ k.desired) (hmutates : call.mutates = true)
    (hcall : Concerns shell k A w.profiles call)
    (hvalue : ∀ r a, value r = some a → r = .done ∨ ∃ id, r = .created id)
    (hnext : ∀ r a w' id p, value r = some a → (∀ id', r = .created id' → id' = id) → Tame shell k w₀ w' →
      Aside shell A w w' → named shell A w'.profiles = [p] → Result shell k A w.profiles call id p → Q a w') :
    Ensures (effect shell) (Tame shell k w₀) (invoke call value) Q w := by
  refine ensures_invoke fun r w' hop => ?_
  have htame := h.changed hA hmutates hcall hop
  refine ⟨htame, fun a ha => ?_⟩
  rw [effect, if_pos hmutates] at hop
  have hchanges : ∃ id, Changes shell call id w.profiles w'.profiles ∧ ∀ id', r = .created id' → id' = id := by
    rcases hvalue r a ha with rfl | ⟨id, rfl⟩
    · obtain ⟨-, id, hchanges⟩ := hop.2
      exact ⟨id, hchanges, nofun⟩
    · refine ⟨id, hop.2.2.2, fun id' h => ?_⟩
      cases h
      rfl
  obtain ⟨id, hchanges, hid⟩ := hchanges
  obtain ⟨⟨p, hp, hresult⟩, hothers⟩ := hchanges.named w.unique hcall
  exact hnext r a w' id p ha hid htame hothers hp hresult

theorem holds_of_stores {stored : Text} {p : Profile} (h : Stores shell A.payload stored)
    (hpayload : p.payload = some stored) (hname : p.payloadName = some A.fileName)
    (hfile : p.payloadFileName = some A.fileName) : Holds shell A p := by
  obtain ⟨t, t', ht, ht', htrim⟩ := h
  refine ⟨?_, ?_, ?_⟩
  · rw [hpayload]
    simp [testEquivalentPayload, castString, ht, ht', htrim, shell.comparison.crefl]
  · rw [hname]
    exact shell.comparison.crefl _
  · rw [hfile]
    exact shell.comparison.crefl _

theorem pilot_exact {groupId : Text} {filterType : Option Text}
    (h : filterType = none ∨ filterType = some (text "none")) :
    testExactPilotAssignment shell groupId (pilotAssignment groupId filterType) = true := by
  have hself (s : Text) : shell.comparison.is (some s) s = true := shell.comparison.refl s
  rcases h with rfl | rfl
  · simp [testExactPilotAssignment, pilotAssignment, castString, shell.comparison.refl, hself]
  · simp [testExactPilotAssignment, pilotAssignment, castString, shell.comparison.refl, hself]

/-- The object of an item is there with its content. -/
structure Delivered (shell : Shell) (k : Parameters) (item : Item) (id : ℕ) (w : World) (p : Profile) : Prop where
  named : named shell item.spec w.profiles = [p]
  id : p.id = id
  carries : Carries shell item.spec p
  holds : Holds shell item.spec p
  pilot : item.assigned = true → item.action ≠ .update → OnlyPilot shell k p

theorem asCreated_eq {r : Reply} {id : ℕ} (h : r.asCreated = some id) : r = .created id := by
  cases r with
  | created id' => rw [Option.some.inj h]
  | _ => cases h

theorem asDone_eq {r : Reply} {u : Unit} (h : r.asDone = some u) : r = .done := by
  cases r with
  | done => rfl
  | _ => cases h

theorem Fits.of_create {profiles : List Profile} {item : Item} (h : Fits shell k profiles item)
    (haction : item.action = .create) :
    Intune.named shell item.spec profiles = [] ∧ item.assigned = false := by
  rcases hremote : item.remote with _ | p
  · exact ⟨by rw [h.named, hremote]; rfl, (h.absent hremote).2⟩
  · rcases (h.known p hremote).action with ⟨hverify, -⟩ | ⟨hupdate, -⟩
    · rw [haction] at hverify
      cases hverify
    · rw [haction] at hupdate
      cases hupdate

theorem Fits.of_some {profiles : List Profile} {item : Item} {p : Profile} (h : Fits shell k profiles item)
    (hremote : item.remote = some p) :
    Intune.named shell item.spec profiles = [p] ∧ Known shell k item p :=
  ⟨by rw [h.named, hremote]; rfl, h.known p hremote⟩

theorem Known.carries {profiles : List Profile} {item : Item} {p : Profile} (h : Known shell k item p)
    (hone : Intune.named shell item.spec profiles = [p]) : Carries shell item.spec p :=
  ⟨(mem_of_named hone).2, h.description⟩

theorem Known.onlyPilot {item : Item} {p : Profile} (h : Known shell k item p) (hassigned : item.assigned = true) :
    OnlyPilot shell k p := by
  have hlength := h.assigned
  rw [if_pos hassigned] at hlength
  obtain ⟨a, ha⟩ := List.length_eq_one_iff.mp hlength
  refine ⟨a, ha, ?_⟩
  simpa [ha] using h.pilot

theorem ensures_deliver {item : Item} (hitem : item.spec ∈ k.desired) (hfits : Fits shell k w.profiles item)
    (htame : Tame shell k w₀ w) :
    Ensures (effect shell) (Tame shell k w₀) (deliver item) (fun id w' => Tame shell k w₀ w' ∧
      Aside shell item.spec w w' ∧ ∃ p, Delivered shell k item id w' p) w := by
  unfold deliver
  split
  · next haction =>
    obtain ⟨hnone, hassigned⟩ := hfits.of_create haction
    refine ensures_change htame hitem rfl (.create hnone) (fun r a ha => Or.inr ⟨a, asCreated_eq ha⟩) ?_
    rintro r a w' id p ha hid htame' haside hone ⟨stored, hstored, rfl⟩
    obtain rfl := hid a (asCreated_eq ha)
    refine ⟨htame', haside, _, hone, rfl, ⟨is_self shell item.spec, shell.comparison.crefl _⟩,
      holds_of_stores hstored rfl rfl rfl, fun h => ?_⟩
    rw [hassigned] at h
    cases h
  · next remote haction hremote =>
    obtain ⟨hone, hknown⟩ := hfits.of_some hremote
    refine ensures_bind (ensures_change htame hitem rfl (.patch remote hone hknown.description)
      (fun r a ha => Or.inl (asDone_eq ha)) ?_)
    rintro r a w' id p - - htame' haside hone' ⟨q, stored, hq, hstored, rfl⟩
    obtain rfl := List.singleton_inj.mp (hone.symm.trans hq)
    refine ⟨htame', haside, _, hone', rfl, ⟨is_self shell item.spec, shell.comparison.crefl _⟩,
      holds_of_stores hstored rfl rfl rfl, fun _ h => absurd haction h⟩
  · next remote haction hremote =>
    obtain ⟨hone, hknown⟩ := hfits.of_some hremote
    have hholds : Holds shell item.spec remote := by
      rcases hknown.action with ⟨-, hholds⟩ | ⟨hupdate, -⟩
      · exact hholds
      · rw [haction] at hupdate
        cases hupdate
    exact ⟨htame, fun _ _ => rfl, remote, hone, rfl, hknown.carries hone, hholds, fun h _ => hknown.onlyPilot h⟩
  · trivial

theorem ensures_assignPilot {item : Item} {id : ℕ} {p : Profile} (hitem : item.spec ∈ k.desired)
    (hdelivered : Delivered shell k item id w p) (htame : Tame shell k w₀ w) :
    Ensures (effect shell) (Tame shell k w₀) (assignPilot k item id) (fun _ w' => Tame shell k w₀ w' ∧
      Aside shell item.spec w w' ∧ InPlace shell k w'.profiles item.spec) w := by
  unfold assignPilot
  split_ifs with hassign
  · rw [← hdelivered.id]
    refine ensures_change htame hitem rfl (.assign p hdelivered.named hdelivered.carries.description)
      (fun r a ha => Or.inl (asDone_eq ha)) ?_
    rintro r a w' id' p' - - htame' haside hone' ⟨q, filterType, hq, hfilter, rfl⟩
    obtain rfl := List.singleton_inj.mp (hdelivered.named.symm.trans hq)
    refine ⟨htame', haside, _, hone', ⟨hdelivered.carries.1, hdelivered.carries.2⟩,
      ⟨hdelivered.holds.1, hdelivered.holds.2, hdelivered.holds.3⟩, _, rfl, pilot_exact hfilter⟩
  · push Not at hassign
    refine ⟨htame, fun _ _ => rfl, p, hdelivered.named, hdelivered.carries, hdelivered.holds, ?_⟩
    exact hdelivered.pilot (by simpa using hassign.1) hassign.2

theorem ensures_applyItem {item : Item} (hitem : item.spec ∈ k.desired) (hfits : Fits shell k w.profiles item)
    (htame : Tame shell k w₀ w) :
    Ensures (effect shell) (Tame shell k w₀) (applyItem shell k item) (fun _ w' => Tame shell k w₀ w' ∧
      Aside shell item.spec w w' ∧ InPlace shell k w'.profiles item.spec) w := by
  refine ensures_bind ((ensures_deliver hitem hfits htame).mono ?_)
  rintro id w₁ ⟨htame₁, haside₁, p, hdelivered⟩
  refine ensures_bind ((ensures_assignPilot hitem hdelivered htame₁).mono ?_)
  rintro - w₂ ⟨htame₂, haside₂, hplace⟩
  refine ensures_bind (ensures_read htame₂ rfl fun _ page _ _ => ?_)
  refine ensures_bind (ensures_need fun _ => ensures_bind (ensures_read htame₂ rfl fun _ _ _ _ => ?_))
  exact ⟨htame₂, fun B hB => (haside₂ B hB).trans (haside₁ B hB), hplace⟩

theorem Fits.aside {w' : World} {item : Item} (h : Fits shell k w.profiles item) (haside : Aside shell A w w')
    (happart : shell.comparison.eq A.displayName item.spec.displayName = false) : Fits shell k w'.profiles item :=
  ⟨(haside item.spec happart).trans h.named, h.absent, h.known⟩

theorem InPlace.aside {w' : World} {spec : Spec} (h : InPlace shell k w.profiles spec)
    (haside : Aside shell A w w') (happart : shell.comparison.eq A.displayName spec.displayName = false) :
    InPlace shell k w'.profiles spec := by
  obtain ⟨p, hone, hp⟩ := h
  exact ⟨p, (haside spec happart).trans hone, hp⟩

/-- The loop puts one profile after the other in place. -/
theorem ensures_applyItems {items : List Item} (hspecs : items.map Item.spec = k.desired)
    (hfits : ∀ item ∈ items, Fits shell k w.profiles item) (htame : Tame shell k w₀ w) :
    Ensures (effect shell) (Tame shell k w₀) (applyItems shell k items) (fun _ w' => Tame shell k w₀ w' ∧
      ∀ spec ∈ k.desired, InPlace shell k w'.profiles spec) w := by
  have hpairwise : items.Pairwise fun a b =>
      shell.comparison.eq a.spec.displayName b.spec.displayName = false ∧
        shell.comparison.eq b.spec.displayName a.spec.displayName = false := by
    have happart := desired_apart shell.comparison k
    rw [← hspecs] at happart
    refine (List.pairwise_map.mp happart).imp fun {a b} h => ⟨h, ?_⟩
    rcases hba : shell.comparison.eq b.spec.displayName a.spec.displayName
    · rfl
    · rw [shell.comparison.symm _ _ hba] at h
      cases h
  refine ensures_bind ((ensures_mapM (fun rest _ w' => Tame shell k w₀ w' ∧ ∃ before, before ++ rest = items ∧
      (∀ item ∈ before, InPlace shell k w'.profiles item.spec) ∧
      ∀ item ∈ rest, Fits shell k w'.profiles item)
    ?_ items [] ⟨htame, [], rfl, nofun, hfits⟩).mono ?_)
  · rintro item rest done w' ⟨htame', before, hsplit, hbefore, hrest⟩
    have hitem : item.spec ∈ k.desired := by
      rw [← hspecs, ← hsplit]
      simp
    rw [← hsplit] at hpairwise
    obtain ⟨-, htail, hcross⟩ := List.pairwise_append.mp hpairwise
    refine (ensures_applyItem hitem (hrest item List.mem_cons_self) htame').mono ?_
    rintro id w'' ⟨htame'', haside, hplace⟩
    refine ⟨htame'', before ++ [item], by simpa using hsplit, fun other hother => ?_, fun other hother => ?_⟩
    · rcases List.mem_append.mp hother with hother | hother
      · exact (hbefore other hother).aside haside (hcross other hother item List.mem_cons_self).2
      · obtain rfl := List.mem_singleton.mp hother
        exact hplace
    · exact (hrest other (List.mem_cons_of_mem _ hother)).aside haside
        ((List.pairwise_cons.mp htail).1 other hother).1
  · rintro receipt w' ⟨htame', before, hsplit, hbefore, -⟩
    refine ensures_need fun _ => ⟨htame', fun spec hspec => ?_⟩
    rw [List.append_nil] at hsplit
    rw [← hspecs, ← hsplit] at hspec
    obtain ⟨item, hitem, rfl⟩ := List.mem_map.mp hspec
    exact hbefore item hitem

end Application

section Runs
variable {shell : Shell} {k : Parameters} {w₀ w : World}

theorem forall₂_items {profiles : List Profile} {specs : List Spec} {items : List Item}
    (h : List.Forall₂ (fun spec item => item.spec = spec ∧ Fits shell k profiles item) specs items) :
    items.map Item.spec = specs ∧ ∀ item ∈ items, Fits shell k profiles item := by
  induction h with
  | nil => exact ⟨rfl, nofun⟩
  | cons hitem _ ih => exact ⟨by rw [List.map_cons, hitem.1, ih.1], List.forall_mem_cons.mpr ⟨hitem.2, ih.2⟩⟩

theorem ensures_applyProfiles (htame : Tame shell k w₀ w) :
    Ensures (effect shell) (Tame shell k w₀) (applyProfiles shell k) (fun _ w' => Tame shell k w₀ w' ∧
      ∀ spec ∈ k.desired, InPlace shell k w'.profiles spec) w := by
  refine ensures_bind (((ensures_preflight shell k w).imp fun w' h => h ▸ htame).mono ?_)
  rintro items w' ⟨rfl, hitems⟩
  obtain ⟨hspecs, hfits⟩ := forall₂_items hitems
  exact ensures_applyItems hspecs hfits htame

/-- Where everything is in place there is nothing to do. -/
theorem ensures_settled {item : Item} (hplace : InPlace shell k w.profiles item.spec)
    (hfits : Fits shell k w.profiles item) :
    Ensures (effect shell) (fun w' => w' = w) (applyItem shell k item) (fun _ w' => w' = w) w := by
  obtain ⟨p, hone, -, hholds, a, ha, -⟩ := hplace
  have hremote : item.remote = some p := by
    have hlist := hfits.named.symm.trans hone
    rcases hremote : item.remote with _ | q
    · rw [hremote] at hlist
      cases hlist
    · rw [hremote] at hlist
      rw [List.singleton_inj.mp hlist]
  obtain ⟨-, hknown⟩ := hfits.of_some hremote
  have haction : item.action = .verify := by
    rcases hknown.action with ⟨hverify, -⟩ | ⟨-, hnot⟩
    · exact hverify
    · exact absurd hholds hnot
  have hassigned : item.assigned = true := by
    have hlength := hknown.assigned
    rcases hassigned : item.assigned
    · rw [hassigned, ha] at hlength
      cases hlength
    · rfl
  have hdeliver : deliver item = .ret p.id := by simp [deliver, haction, hremote, pure]
  have hassign : assignPilot k item p.id = .ret () := by simp [assignPilot, haction, hassigned, pure]
  refine ensures_bind ?_
  rw [hdeliver]
  refine ensures_bind ?_
  rw [hassign]
  change Ensures _ _ (invoke (Call.getAssignments p.id) Reply.asAssignments >>= _) _ _
  refine ensures_bind (ensures_read rfl rfl fun _ page _ _ => ?_)
  exact ensures_bind (ensures_need fun _ => ensures_bind (ensures_read rfl rfl fun _ _ _ _ => rfl))

theorem ensures_rerun (hplace : ∀ spec ∈ k.desired, InPlace shell k w.profiles spec) :
    Ensures (effect shell) (fun w' => w' = w) (applyProfiles shell k) (fun _ w' => w' = w) w := by
  refine ensures_bind ((ensures_preflight shell k w).mono ?_)
  rintro items w' ⟨rfl, hitems⟩
  obtain ⟨hspecs, hfits⟩ := forall₂_items hitems
  refine ensures_bind ((ensures_mapM (fun rest _ w'' => w'' = w' ∧ ∀ item ∈ rest, item ∈ items) ?_ items []
    ⟨rfl, fun _ h => h⟩).mono ?_)
  · rintro item rest done w'' ⟨rfl, hrest⟩
    have hitem := hrest item List.mem_cons_self
    have hspec : item.spec ∈ k.desired := hspecs ▸ List.mem_map_of_mem hitem
    refine (ensures_settled (hplace item.spec hspec) (hfits item hitem)).mono fun _ w'' h => ⟨h, ?_⟩
    exact fun other hother => hrest other (List.mem_cons_of_mem _ hother)
  · rintro receipt w'' ⟨rfl, -⟩
    exact ensures_need fun _ => rfl

end Runs

section Tenant

/-- Strings compared as they are, and a payload that is its own text. -/
def plainShell : Shell := ⟨.ordinal, some⟩

def pilot : Parameters where
  tenantId := text "4b2f"
  pilotGroupId := text "77aa"
  expectedGroupDisplayName := text "Santa pilot"
  expectedDeviceName := text "mac-01"
  expectedAccount := text "ada@contoso.example"
  allowProfileUpdate := false
  payload f := text "<plist/>" ++ f

/-- A profile of somebody else under one of the names. -/
def foreignProfile : Profile :=
  ⟨7, customConfiguration, some (text "SANTA 2026.8 - TCC"), none, some (text "<plist/>"), none, none, []⟩

def foreignStart : World := ⟨[foreignProfile], by decide, []⟩

end Tenant
end Intune
