import AzdSanta.Candidates.Presentation

/-! What a candidate says about the events behind it. -/
namespace Candidates
open Python PowerShell Checks

/-- `y` is `x` with event ids renamed by `f`, device pseudonyms renamed by `g` and anything in the members that a
candidate leaves out. -/
structure Alike (f g : List ℕ → List ℕ) (x y : Element) : Prop where
  members : ∀ key ∉ ["client", "binary", "rawEvidence", "eventId", "device"], property key x = property key y
  eventId : stringProperty "eventId" y = (stringProperty "eventId" x).map f
  binary : ∀ b b', property "binary" x = some b → property "binary" y = some b' →
    ∀ key ∉ ["path", "pathClassification", "teamId", "signingId", "cdhash"], property key b = property key b'
  device : ∀ d d', property "device" x = some d → property "device" y = some d' →
    stringProperty "pseudonymousId" d' = (stringProperty "pseudonymousId" d).map g
  rawEvidence : ∀ r r', property "rawEvidence" x = some r → property "rawEvidence" y = some r' →
    ∀ key ∉ ["reference"], property key r = property key r'

/-- The event ids of an array. -/
def eventIds (xs : List Element) : Set (List ℕ) := {id | ∃ x ∈ xs, stringProperty "eventId" x = some id}

/-- The device pseudonyms of an array. -/
def pseudonyms (xs : List Element) : Set (List ℕ) :=
  {id | ∃ x ∈ xs, ∃ d, property "device" x = some d ∧ stringProperty "pseudonymousId" d = some id}

/-- Every field but the three digests of the evidence. -/
def Undigested (field : List ℕ × Value) : Bool :=
  field.1 ∉ [name "evidenceDigest", name "candidateId", name "outputDigest"]

section Events
variable {f g : List ℕ → List ℕ} {x y : Element} {event event' : Event}

theorem normalizedEvent_eq_some {e : Element} :
    normalizedEvent e = some event ↔ ∃ binary device rawEvidence, property "binary" e = some binary ∧
      property "device" e = some device ∧ property "rawEvidence" e = some rawEvidence ∧
      stringProperty "eventId" e = some event.eventId ∧ stringProperty "observedAt" e = some event.observedAt ∧
      stringProperty "decision" e = some event.decision ∧ stringProperty "sha256" binary = some event.binary ∧
      stringProperty "pseudonymousId" device = some event.device ∧
      stringProperty "sha256" rawEvidence = some event.rawEvidence := by
  unfold normalizedEvent
  simp only [Option.bind_eq_bind, Option.bind_eq_some_iff, Option.pure_def, Option.some.injEq]
  constructor
  · rintro ⟨binary, hbinary, device, hdevice, rawEvidence, hrawEvidence, id, hid, observed, hobserved, decision,
      hdecision, sha, hsha, pseudonym, hpseudonym, evidence, hevidence, rfl⟩
    exact ⟨binary, device, rawEvidence, hbinary, hdevice, hrawEvidence, hid, hobserved, hdecision, hsha, hpseudonym,
      hevidence⟩
  · rintro ⟨binary, device, rawEvidence, hbinary, hdevice, hrawEvidence, hid, hobserved, hdecision, hsha, hpseudonym,
      hevidence⟩
    exact ⟨binary, hbinary, device, hdevice, rawEvidence, hrawEvidence, _, hid, _, hobserved, _, hdecision, _, hsha, _,
      hpseudonym, _, hevidence, rfl⟩

theorem stringProperty_congr {key : String} (h : property key x = property key y) :
    stringProperty key x = stringProperty key y := by
  unfold stringProperty
  rw [h]

/-- The members that the script reads are renamed with the event. -/
theorem Alike.normalizedEvent (h : Alike f g x y) (hx : normalizedEvent x = some event) (hy : normalizedEvent y = some event') :
    event' = { event with eventId := f event.eventId, device := g event.device } := by
  obtain ⟨b, d, r, hb, hd, hr, hid, hobserved, hdecision, hsha, hpseudonym, hevidence⟩ := normalizedEvent_eq_some.mp hx
  obtain ⟨b', d', r', hb', hd', hr', hid', hobserved', hdecision', hsha', hpseudonym', hevidence'⟩ :=
    normalizedEvent_eq_some.mp hy
  have hids := h.eventId
  have hobserveds := stringProperty_congr (h.members "observedAt" (by decide))
  have hdecisions := stringProperty_congr (h.members "decision" (by decide))
  have hshas := stringProperty_congr (h.binary b b' hb hb' "sha256" (by decide))
  have hpseudonyms := h.device d d' hd hd'
  have hevidences := stringProperty_congr (h.rawEvidence r r' hr hr' "sha256" (by decide))
  rw [hid, hid'] at hids
  rw [hobserved, hobserved'] at hobserveds
  rw [hdecision, hdecision'] at hdecisions
  rw [hsha, hsha'] at hshas
  rw [hpseudonym, hpseudonym'] at hpseudonyms
  rw [hevidence, hevidence'] at hevidences
  simp only [Option.some.injEq, Option.map_some] at hids hobserveds hdecisions hshas hpseudonyms hevidences
  cases event'
  simp_all

end Events

section Lockstep
variable {s : Shell} {t : ℤ} {f g : List ℕ → List ℕ} {ids devices : Set (List ℕ)}

/-- Entries of the two runs, whose ids are among `ids` and whose devices are among `devices`. -/
structure Paired (f g : List ℕ → List ℕ) (ids devices : Set (List ℕ)) (i i' : Item) : Prop where
  event : i'.event = { i.event with eventId := f i.event.eventId, device := g i.event.device }
  observed : i'.observed = i.observed
  known : i.event.eventId ∈ ids
  device : i.event.device ∈ devices

theorem paired_of_inspect {xs ys : List Element} (h : List.Forall₂ (Alike f g) xs ys) {items items' : List Item}
    (hitems : xs.mapM (inspect s t) = .ok items) (hitems' : ys.mapM (inspect s t) = .ok items')
    (hids : eventIds xs ⊆ ids) (hdevices : pseudonyms xs ⊆ devices) :
    List.Forall₂ (Paired f g ids devices) items items' := by
  induction h generalizing items items' with
  | nil =>
    obtain rfl := Except.ok.inj hitems
    obtain rfl := Except.ok.inj hitems'
    exact .nil
  | @cons x y xs ys hxy _ ih =>
    rw [mapM_eq_ok] at hitems hitems'
    cases hitems with
    | @cons _ i _ items hi hitems =>
      cases hitems' with
      | @cons _ i' _ items' hi' hitems' =>
        obtain ⟨-, -, hevent, htime, -⟩ := inspect_eq_ok hi
        obtain ⟨-, -, hevent', htime', -⟩ := inspect_eq_ok hi'
        have hrenamed := hxy.normalizedEvent hevent hevent'
        obtain ⟨-, d, -, -, hd, -, hid, -, -, -, hpseudonym, -⟩ := normalizedEvent_eq_some.mp hevent
        refine .cons ⟨hrenamed, ?_, ?_, ?_⟩ (ih (mapM_eq_ok.mpr hitems) (mapM_eq_ok.mpr hitems') ?_ ?_)
        · have hobserved : i'.event.observedAt = i.event.observedAt := by rw [hrenamed]
          rw [hobserved, htime] at htime'
          exact (Option.some.inj htime').symm
        · exact hids ⟨x, List.mem_cons_self, hid⟩
        · exact hdevices ⟨x, List.mem_cons_self, d, hd, hpseudonym⟩
        · rintro id ⟨x, hx, hid⟩
          exact hids ⟨x, List.mem_cons_of_mem _ hx, hid⟩
        · rintro id ⟨x, hx, hid⟩
          exact hdevices ⟨x, List.mem_cons_of_mem _ hx, hid⟩

theorem add_eq_ok {events events' : List Item} {item : Item} (h : add s events item = .ok events') :
    ((∃ old ∈ events, old.event.eventId = item.event.eventId) ∧ events' = events) ∨
      ((∀ old ∈ events, old.event.eventId ≠ item.event.eventId) ∧ events' = events ++ [item]) := by
  unfold add at h
  cases hfind : events.find? fun old => old.event.eventId = item.event.eventId with
  | none =>
    rw [hfind] at h
    refine Or.inr ⟨fun old hold hid => ?_, (Except.ok.inj h).symm⟩
    exact List.find?_eq_none.mp hfind old hold (decide_eq_true hid)
  | some old =>
    rw [hfind] at h
    dsimp only at h
    split_ifs at h
    refine Or.inl ⟨⟨old, List.mem_of_find?_eq_some hfind, ?_⟩, (Except.ok.inj h).symm⟩
    simpa using List.find?_some hfind

/-- Both runs take an event or both leave it out. -/
theorem add_paired (hf : Set.InjOn f ids) {events events' next next' : List Item} {i i' : Item}
    (hi : Paired f g ids devices i i') (hevents : List.Forall₂ (Paired f g ids devices) events events')
    (h : add s events i = .ok next) (h' : add s events' i' = .ok next') :
    List.Forall₂ (Paired f g ids devices) next next' := by
  have hid : i'.event.eventId = f i.event.eventId := by rw [hi.event]
  rcases add_eq_ok h with ⟨⟨old, hold, hknown⟩, rfl⟩ | ⟨hnew, rfl⟩
  · rcases add_eq_ok h' with ⟨-, rfl⟩ | ⟨hnew', -⟩
    · exact hevents
    · obtain ⟨old', hold', hpaired⟩ := exists_of_mem_left hevents hold
      refine absurd ?_ (hnew' old' hold')
      rw [hpaired.event, hid, hknown]
  · rcases add_eq_ok h' with ⟨⟨old', hold', hknown'⟩, -⟩ | ⟨-, rfl⟩
    · obtain ⟨old, hold, hpaired⟩ := exists_of_mem_right hevents hold'
      refine absurd (hf hpaired.known hi.known ?_) (hnew old hold)
      rw [hpaired.event, hid] at hknown'
      exact hknown'
    · exact List.rel_append hevents (.cons hi .nil)

/-- Related lists are sorted alike when the relation respects the order. -/
theorem insertionSort_forall₂ {R : Item → Item → Prop} {l l' : List Item} (h : List.Forall₂ R l l')
    (horder : ∀ a b a' b', R a a' → R b b' → (a.event.eventId ≤ b.event.eventId ↔ a'.event.eventId ≤ b'.event.eventId)) :
    List.Forall₂ R (l.insertionSort fun a b => a.event.eventId ≤ b.event.eventId)
      (l'.insertionSort fun a b => a.event.eventId ≤ b.event.eventId) := by
  obtain ⟨hlength, hall⟩ := List.forall₂_iff_zip.mp h
  have hleft : (l.zip l').map Prod.fst = l := List.map_fst_zip (by omega)
  have hright : (l.zip l').map Prod.snd = l' := List.map_snd_zip (by omega)
  -- sort the pairs by their left halves
  have hfst := List.map_insertionSort (fun a b => a.1.event.eventId ≤ b.1.event.eventId)
    (fun a b => a.event.eventId ≤ b.event.eventId) Prod.fst (l.zip l') fun _ _ _ _ => Iff.rfl
  have hsnd := List.map_insertionSort (fun a b => a.1.event.eventId ≤ b.1.event.eventId)
    (fun a b => a.event.eventId ≤ b.event.eventId) Prod.snd (l.zip l') fun a ha b hb =>
      horder a.1 b.1 a.2 b.2 (hall ha) (hall hb)
  rw [hleft] at hfst
  rw [hright] at hsnd
  rw [← hfst, ← hsnd, List.forall₂_map_left_iff, List.forall₂_map_right_iff, List.forall₂_same]
  intro pair hpair
  exact hall ((List.mem_insertionSort _).mp hpair)

/-- What the second loop has collected in the two runs. -/
structure Summarized (g : List ℕ → List ℕ) (devices : Set (List ℕ)) (summary summary' : Summary) : Prop where
  renamed : summary'.devices = summary.devices.map g
  known : ∀ d ∈ summary.devices, d ∈ devices
  evidence : g = id → summary'.evidence = summary.evidence
  binary : summary'.binary = summary.binary
  first : summary'.first = summary.first
  last : summary'.last = summary.last

theorem collect_paired (hg : Set.InjOn g devices) {i i' : Item} {summary summary' next next' : Summary}
    (hi : Paired f g ids devices i i') (hsummary : Summarized g devices summary summary')
    (h : collect s summary i = .ok next) (h' : collect s summary' i' = .ok next') : Summarized g devices next next' := by
  obtain ⟨-, h⟩ := check_eq_ok.mp h
  obtain ⟨-, h'⟩ := check_eq_ok.mp h'
  obtain rfl := Except.ok.inj h
  obtain rfl := Except.ok.inj h'
  have hdevice : i'.event.device = g i.event.device := by rw [hi.event]
  have hmem : g i.event.device ∈ summary.devices.map g ↔ i.event.device ∈ summary.devices := by
    constructor
    · intro hmap
      obtain ⟨d, hd, heq⟩ := List.mem_map.mp hmap
      exact hg (hsummary.known d hd) hi.device heq ▸ hd
    · exact List.mem_map_of_mem
  refine ⟨?_, ?_, ?_, ?_, ?_, ?_⟩
  · dsimp only
    rw [hdevice, hsummary.renamed]
    by_cases hold : i.event.device ∈ summary.devices
    · rw [if_pos hold, if_pos (hmem.mpr hold)]
    · rw [if_neg hold, if_neg fun h => hold (hmem.mp h), List.map_append]
      rfl
  · dsimp only
    intro d hd
    split_ifs at hd
    · exact hsummary.known d hd
    · rcases List.mem_append.mp hd with hd | hd
      · exact hsummary.known d hd
      · exact List.mem_singleton.mp hd ▸ hi.device
  · intro hid
    dsimp only
    rw [hsummary.evidence hid, hi.event, hi.observed, hid]
    rfl
  · dsimp only
    rw [hi.event]
  · dsimp only
    rw [hi.observed, hsummary.first]
  · dsimp only
    rw [hi.observed, hsummary.last]

theorem filter_insertIdx {α : Type} {q : α → Bool} {a : α} (ha : q a = false) (n : ℕ) (l : List α) :
    (l.insertIdx n a).filter q = l.filter q := by
  induction l generalizing n with
  | nil =>
    cases n with
    | zero => simp [ha]
    | succ n => simp
  | cons b l ih =>
    cases n with
    | zero => simp [ha]
    | succ n => rw [List.insertIdx_succ_cons, List.filter_cons, List.filter_cons, ih]

/-- Without its digests a candidate depends on the counts, the binary and the times. -/
theorem filter_draft {p : Parameters} {count count' : ℕ} {summary summary' : Summary} (hcount : count = count')
    (hdevices : summary.devices.length = summary'.devices.length) (hbinary : summary.binary = summary'.binary)
    (hfirst : summary.first = summary'.first) (hlast : summary.last = summary'.last) :
    (s.draft p count summary).filter Undigested = (s.draft p count' summary').filter Undigested := by
  have hid (v : Value) : Undigested (name "candidateId", v) = false := by
    simp [Undigested]
  have hdigest (v : Value) : Undigested (name "outputDigest", v) = false := by
    simp [Undigested]
  have hevidence (v : Value) : Undigested (name "evidenceDigest", v) = false := by
    simp [Undigested]
  unfold Shell.draft
  rw [List.filter_append, List.filter_append, filter_insertIdx (hid _), filter_insertIdx (hid _),
    List.filter_singleton, List.filter_singleton, hdigest, hdigest]
  unfold Shell.identity
  simp only [List.filter_cons, hevidence, Bool.false_eq_true, if_false, cond_false, hcount, hdevices, hbinary, hfirst, hlast]

/-- Both runs end with the same candidate, up to the pseudonyms that its digests cover. -/
theorem summarize_paired (hf : StrictMonoOn f ids) (hg : Set.InjOn g devices) {registered registered' : List Item}
    (h : List.Forall₂ (Paired f g ids devices) registered registered') {p : Parameters}
    {out out' : List (List ℕ × Value)} (hout : s.summarize p registered = .ok out)
    (hout' : s.summarize p registered' = .ok out') :
    out.filter Undigested = out'.filter Undigested ∧ (g = id → out = out') := by
  obtain ⟨summary, hsummary, hdraft⟩ := bind_eq_ok.mp hout
  obtain ⟨summary', hsummary', hdraft'⟩ := bind_eq_ok.mp hout'
  obtain rfl := Except.ok.inj hdraft
  obtain rfl := Except.ok.inj hdraft'
  have hsorted := insertionSort_forall₂ h fun a b a' b' ha hb => by
    rw [ha.event, hb.event]
    exact (hf.le_iff_le ha.known hb.known).symm
  have hstart : Summarized g devices .start .start := ⟨rfl, by simp [Summary.start], fun _ => rfl, rfl, rfl, rfl⟩
  have hend : Summarized g devices summary summary' := foldlM_related (V := Summarized g devices) hsorted
    (fun _ _ _ _ _ _ hi hv hx hy => collect_paired hg hi hv hx hy) hstart hsummary hsummary'
  constructor
  · apply filter_draft h.length_eq _ hend.binary.symm hend.first.symm hend.last.symm
    rw [hend.renamed, List.length_map]
  · intro hid
    have hsame : summary' = summary := by
      cases summary
      cases summary'
      obtain ⟨hrenamed, -, hevidence, hbinary, hfirst, hlast⟩ := hend
      dsimp only at hrenamed hevidence hbinary hfirst hlast
      rw [hrenamed, hevidence hid, hbinary, hfirst, hlast, hid, List.map_id]
    rw [hsame, h.length_eq]

end Lockstep

/-- Candidates from arrays that differ in what a candidate leaves out are the same bytes, and renamed device
pseudonyms show in the digests only. -/
theorem draft_privacy (s : Shell) (p : Parameters) {size size' : ℕ} {blanks blanks' : List Text} {xs ys : List Element}
    {out out' : List (List ℕ × Value)} (hx : newSantaRuleCandidate s p ⟨size, .array blanks xs⟩ = .ok out)
    (hy : newSantaRuleCandidate s p ⟨size', .array blanks' ys⟩ = .ok out') :
    (∀ f, StrictMonoOn f (eventIds xs) → List.Forall₂ (Alike f id) xs ys → outputBytes out = outputBytes out') ∧
    ∀ g, Set.InjOn g (pseudonyms xs) → List.Forall₂ (Alike id g) xs ys →
      out.filter Undigested = out'.filter Undigested := by
  obtain ⟨-, -, -, -, items, registered, hitems, hadd, hout⟩ := newSantaRuleCandidate_eq_ok.mp hx
  obtain ⟨-, -, -, -, items', registered', hitems', hadd', hout'⟩ := newSantaRuleCandidate_eq_ok.mp hy
  have hruns {f g : List ℕ → List ℕ} (hf : StrictMonoOn f (eventIds xs)) (hg : Set.InjOn g (pseudonyms xs))
      (h : List.Forall₂ (Alike f g) xs ys) :
      out.filter Undigested = out'.filter Undigested ∧ (g = id → out = out') := by
    have hpaired := paired_of_inspect h hitems hitems' subset_rfl subset_rfl
    have hregistered : List.Forall₂ (Paired f g (eventIds xs) (pseudonyms xs)) registered registered' :=
      foldlM_related (V := List.Forall₂ _) hpaired
        (fun _ _ _ _ _ _ hi hv ha hb => add_paired hf.injOn hi hv ha hb) .nil hadd hadd'
    exact summarize_paired hf hg hregistered hout hout'
  constructor
  · intro f hf h
    rw [(hruns hf Function.injective_id.injOn h).2 rfl]
  · intro g hg h
    exact (hruns strictMonoOn_id hg h).1

theorem name_injective {k k' : String} (h : name k = name k') : k = k' := by
  have htext : text k = text k' := utf16_injective (isScalar_text k) (isScalar_text k') h
  have hchars : k.toList = k'.toList := List.map_injective_iff.mpr (fun _ _ => Char.toNat_inj.mp) htext
  exact String.toList_injective hchars

/-- A property other than the one of a changed member. -/
theorem property_change (before after : List (List Piece × Element)) {changed key : String} {v v' : Element}
    (hkey : key ≠ changed) : property key (.object [] (before ++ (literal changed, v) :: after)) =
      property key (.object [] (before ++ (literal changed, v') :: after)) := by
  have hname : unescape (literal changed) ≠ name key := by
    intro h
    have hliteral : unescape (literal changed) = name changed := by
      rw [unescape, literal, List.flatMap_map]
      rfl
    exact hkey (name_injective (hliteral.symm.trans h)).symm
  simp only [property, List.find?_append, List.find?_cons, hname, decide_false]

theorem draft_privacy_fixture :
    ∃ out out', newSantaRuleCandidate fixtureShell fixtureParameters ⟨700, .array [] [fixtureEvent]⟩ = .ok out ∧
      newSantaRuleCandidate fixtureShell fixtureParameters ⟨701, .array [] [fixtureChanged]⟩ = .ok out' ∧
      outputBytes out = outputBytes out' := by
  obtain ⟨out, hout⟩ := newSantaRuleCandidate_singleton fixtureParameters_inWindow (show 700 ≤ 1048576 by norm_num)
    fixture_inspect (fixtureMembers_parsed 997 _ _)
  obtain ⟨out', hout'⟩ := newSantaRuleCandidate_singleton fixtureParameters_inWindow (show 701 ≤ 1048576 by norm_num)
    fixture_inspect_changed (fixtureMembers_parsed 997 _ _)
  refine ⟨out, out', hout, hout', ?_⟩
  have hproperty (key : String) (hkey : key ≠ "binary") : property key fixtureEvent = property key fixtureChanged :=
    property_change ((fixtureMembers "evt-001" "").take 6) ((fixtureMembers "evt-001" "").drop 7) hkey
  have hbinary (path : String) :
      property "binary" (.object [] (fixtureMembers "evt-001" path)) = some (fixtureBinary path) := rfl
  have halike : Alike id id fixtureEvent fixtureChanged := by
    refine ⟨?_, ?_, ?_, ?_, ?_⟩
    · intro key hkey
      exact hproperty key fun h => hkey (by simp [h])
    · rw [Option.map_id, stringProperty_congr (hproperty "eventId" (by decide))]
      rfl
    · intro b b' hb hb' key hkey
      obtain rfl := Option.some.inj ((hbinary _).symm.trans hb)
      obtain rfl := Option.some.inj ((hbinary _).symm.trans hb')
      exact property_change [(literal "sha256", .string (List.replicate 64 (.plain 97)))] _ fun h => hkey (by simp [h])
    · intro d d' hd hd'
      rw [hproperty "device" (by decide), hd'] at hd
      obtain rfl := Option.some.inj hd
      rw [Option.map_id, id]
    · intro r r' hr hr' key hkey
      rw [hproperty "rawEvidence" (by decide), hr'] at hr
      rw [Option.some.inj hr]
  exact (draft_privacy fixtureShell fixtureParameters hout hout').1 id strictMonoOn_id (.cons halike .nil)

end Candidates
