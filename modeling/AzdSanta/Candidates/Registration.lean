import AzdSanta.Candidates.Draft

/-! What the loop over the events accepts: events of one id have to be the same event. -/
namespace Candidates
open Python PowerShell Checks

section Properties

theorem Same.refl (e : Element) : Same e e := by
  induction h : sizeOf e using Nat.strong_induction_on generalizing e with
  | h n ih =>
    subst h
    cases e with
    | null => exact .null
    | true => exact .true
    | false => exact .false
    | number token => exact .number token
    | string raw => exact .string rfl
    | array blanks items =>
      have hitems : List.Forall₂ Same items items := List.forall₂_same.mpr fun e he => ih _ (by
        have hsize := List.sizeOf_lt_of_mem he
        simp only [Element.array.sizeOf_spec]
        omega) e rfl
      exact .array rfl fun p hp => (List.forall₂_iff_zip.mp hitems).2 hp
    | object blanks members =>
      refine .of_forall₂ (List.forall₂_same.mpr fun m hm => ⟨rfl, ih _ ?_ m.2 rfl⟩) (.refl _)
      have hsize := List.sizeOf_lt_of_mem hm
      cases m
      simp only [Element.object.sizeOf_spec, Prod.mk.sizeOf_spec] at hsize ⊢
      omega

/-- Members in another order make the same object. -/
theorem Same.of_perm {blanks blanks' : List Text} {members members' : List (List Piece × Element)}
    (h : members.Perm members') : Same (.object blanks members) (.object blanks' members') :=
  .of_forall₂ (List.forall₂_same.mpr fun _ _ => ⟨rfl, .refl _⟩) h

theorem names_perm {blanks blanks' : List Text} {members members' : List (List Piece × Element)}
    (h : Same (.object blanks members) (.object blanks' members')) :
    (members.map fun m => unescape m.1).Perm (members'.map fun m => unescape m.1) := by
  cases h with
  | @object _ _ _ _ reordered hperm hlength hnames hsame =>
    have hkeys : members.map (fun m => unescape m.1) = reordered.map fun m => unescape m.1 := by
      apply List.forall₂_eq_eq_eq ▸ List.forall₂_map_left_iff.mpr (List.forall₂_map_right_iff.mpr _)
      exact List.forall₂_iff_zip.mpr ⟨hlength, fun {m m'} hp => hnames (m, m') hp⟩
    rw [hkeys]
    exact hperm.map _

/-- In an object without duplicates a property is the one member of its name. -/
theorem property_eq_some {blanks : List Text} {members : List (List Piece × Element)}
    (hnodup : (members.map fun m => unescape m.1).Nodup) {key : String} {e : Element} :
    property key (.object blanks members) = some e ↔ ∃ m ∈ members, unescape m.1 = name key ∧ m.2 = e := by
  simp only [property, Option.map_eq_some_iff]
  constructor
  · rintro ⟨m, hm, rfl⟩
    have hname := List.find?_some hm
    exact ⟨m, List.mem_of_find?_eq_some hm, of_decide_eq_true hname, rfl⟩
  · rintro ⟨m, hm, hname, rfl⟩
    cases hfind : members.find? fun m => unescape m.1 = name key with
    | none => exact absurd (decide_eq_true hname) (List.find?_eq_none.mp hfind m hm)
    | some found =>
      have hfound : unescape found.1 = name key := of_decide_eq_true (List.find?_some (p := fun m : List Piece × Element => decide (unescape m.1 = name key)) hfind)
      have hsame : found = m := List.inj_on_of_nodup_map hnodup (List.mem_of_find?_eq_some hfind) hm
        (hfound.trans hname.symm)
      exact ⟨found, rfl, by rw [hsame]⟩

theorem HasDuplicate.nodup {blanks : List Text} {members : List (List Piece × Element)}
    (h : ¬ HasDuplicate (.object blanks members)) : (members.map fun m => unescape m.1).Nodup := by
  by_contra hnot
  exact h (.here hnot)

/-- The same elements have the same properties. -/
theorem property_same {a b : Element} (h : Same a b) (hunique : ¬ HasDuplicate a) (key : String) :
    (property key a = none ∧ property key b = none) ∨
      ∃ x y, property key a = some x ∧ property key b = some y ∧ Same x y ∧ ¬ HasDuplicate x := by
  cases h with
  | @object blanks blanks' members members' reordered hperm hlength hnames hsame =>
    have hobjects : Same (.object blanks members) (.object blanks' members') := .object hperm hlength hnames hsame
    have hkeys := names_perm hobjects
    have hnodup := HasDuplicate.nodup hunique
    have hnodup' := hkeys.nodup_iff.mp hnodup
    by_cases hmember : ∃ m ∈ members, unescape m.1 = name key
    · obtain ⟨m, hm, hname⟩ := hmember
      obtain ⟨i, hi, rfl⟩ := List.mem_iff_getElem.mp hm
      have hpair : (members[i], reordered[i]) ∈ members.zip reordered := by
        apply List.mem_iff_getElem.mpr
        exact ⟨i, by simpa [hlength] using hi, by simp⟩
      have hname' := hnames _ hpair
      refine Or.inr ⟨members[i].2, reordered[i].2, ?_, ?_, hsame _ hpair, fun hdup => hunique (.member hm hdup)⟩
      · exact (property_eq_some hnodup).mpr ⟨_, hm, hname, rfl⟩
      · exact (property_eq_some hnodup').mpr
          ⟨reordered[i], hperm.mem_iff.mp (List.getElem_mem _), hname'.symm.trans hname, rfl⟩
    · have hnone {members : List (List Piece × Element)} {blanks : List Text}
          (hnodup : (members.map fun m => unescape m.1).Nodup)
          (habsent : ¬ ∃ m ∈ members, unescape m.1 = name key) : property key (.object blanks members) = none := by
        apply Option.eq_none_iff_forall_ne_some.mpr
        intro x hx
        obtain ⟨m, hm, hname, -⟩ := (property_eq_some hnodup).mp hx
        exact habsent ⟨m, hm, hname⟩
      refine Or.inl ⟨hnone hnodup hmember, hnone hnodup' ?_⟩
      rintro ⟨m, hm, hname⟩
      obtain ⟨m', hm', hname'⟩ := List.mem_map.mp (hkeys.mem_iff.mpr (List.mem_map.mpr ⟨m, hm, rfl⟩))
      exact hmember ⟨m', hm', hname'.trans hname⟩
  | _ => exact Or.inl ⟨rfl, rfl⟩

theorem stringProperty_same {a b : Element} (h : Same a b) (hunique : ¬ HasDuplicate a) (key : String) :
    stringProperty key a = stringProperty key b := by
  unfold stringProperty
  rcases property_same h hunique key with ⟨ha, hb⟩ | ⟨x, y, ha, hb, hsame, -⟩
  · rw [ha, hb]
  · rw [ha, hb]
    cases hsame with
    | string hstring => exact congrArg some hstring
    | _ => rfl

theorem normalizedEvent_same {a b : Element} (h : Same a b) (hunique : ¬ HasDuplicate a) :
    normalizedEvent a = normalizedEvent b := by
  unfold normalizedEvent
  rw [stringProperty_same h hunique "eventId", stringProperty_same h hunique "observedAt",
    stringProperty_same h hunique "decision"]
  rcases property_same h hunique "binary" with ⟨ha, hb⟩ | ⟨binary, binary', ha, hb, hbinary, hunique1⟩
  · rw [ha, hb]
    rfl
  · rcases property_same h hunique "device" with ⟨ha2, hb2⟩ | ⟨device, device', ha2, hb2, hdevice, hunique2⟩
    · rw [ha, hb, ha2, hb2]
      rfl
    · rcases property_same h hunique "rawEvidence" with ⟨ha3, hb3⟩ | ⟨evidence, evidence', ha3, hb3, hevidence, hunique3⟩
      · rw [ha, hb, ha2, hb2, ha3, hb3]
        rfl
      · rw [ha, hb, ha2, hb2, ha3, hb3]
        simp only [Option.bind_eq_bind, Option.bind_some, stringProperty_same hbinary hunique1 "sha256",
          stringProperty_same hdevice hunique2 "pseudonymousId", stringProperty_same hevidence hunique3 "sha256"]

theorem canonical_same {n : ℕ} {a b : Element} (h : Same a b) (ha : Parsed n a) (hn : n ≤ 1000)
    (hunique : ¬ HasDuplicate a) : canonical a = canonical b := by
  rw [canonical, canonical, write_same h ha hn hunique]

theorem inspect_same (s : Shell) (t : ℤ) {n : ℕ} {a b : Element} (h : Same a b) (ha : Parsed n a) (hn : n ≤ 1000)
    (hunique : ¬ HasDuplicate a) : inspect s t a = inspect s t b := by
  unfold inspect canonicalBytes
  rw [s.schema_same a b h, normalizedEvent_same h hunique, canonical_same h ha hn hunique]

end Properties

section Inspection
variable {s : Shell} {t : ℤ}

/-- What an inspected event has passed. -/
theorem inspect_eq_ok {e : Element} {item : Item} (h : inspect s t e = .ok item) :
    ∃ raw, canonical e = .ok raw ∧ normalizedEvent e = some item.event ∧
      s.parseTime item.event.observedAt = some item.observed ∧ item.fingerprint = s.digest raw := by
  unfold inspect at h
  split_ifs at h
  cases hevent : normalizedEvent e with
  | none =>
    rw [hevent] at h
    cases h
  | some event =>
    rw [hevent] at h
    dsimp only at h
    split_ifs at h
    cases htime : s.parseTime event.observedAt with
    | none =>
      rw [htime] at h
      cases h
    | some observed =>
      rw [htime] at h
      dsimp only at h
      split_ifs at h
      obtain ⟨raw, hraw, h⟩ := bind_eq_ok.mp h
      obtain rfl := Except.ok.inj h
      cases hcanonical : canonical e with
      | error failure =>
        rw [canonicalBytes, hcanonical] at hraw
        cases hraw
      | ok raw' =>
        rw [canonicalBytes, hcanonical] at hraw
        obtain rfl := Except.ok.inj hraw
        exact ⟨raw', rfl, rfl, htime, rfl⟩

theorem isPrintable_of_isSha256 {digest : Text} (h : isSha256 digest = true) : digest.all isPrintable = true := by
  simp only [isSha256, Bool.and_eq_true, List.all_eq_true] at h
  apply List.all_eq_true.mpr
  intro c hc
  have hhex := h.2 c hc
  simp only [isDigit, Bool.or_eq_true, Bool.and_eq_true, decide_eq_true_eq] at hhex
  simp only [isPrintable, Bool.and_eq_true, decide_eq_true_eq]
  omega

/-- An item whose fingerprint is a digest. -/
def Fingerprinted (s : Shell) (item : Item) : Prop := ∃ raw, item.fingerprint = s.digest raw

theorem ceq_fingerprint {a b : Item} (ha : Fingerprinted s a) (hb : Fingerprinted s b) :
    s.comparison.ceq a.fingerprint b.fingerprint = true ↔ a.fingerprint = b.fingerprint := by
  obtain ⟨raw, ha⟩ := ha
  obtain ⟨raw', hb⟩ := hb
  rw [ha, hb]
  constructor
  · exact s.comparison.cascii _ _ (isPrintable_of_isSha256 (s.digest_hex raw)) (isPrintable_of_isSha256 (s.digest_hex raw'))
  · intro heq
    rw [heq]
    exact s.comparison.crefl _

end Inspection

section Loop
variable {s : Shell} {t : ℤ} {items events events' : List Item} {item : Item}

/-- `$events` after some items: one of each id, with the fingerprint of all of that id. -/
structure Registered (items events : List Item) : Prop where
  unique : (events.map fun i => i.event.eventId).Nodup
  subset : ∀ i ∈ events, i ∈ items
  covers : ∀ i ∈ items, ∃ j ∈ events, j.event.eventId = i.event.eventId ∧ j.fingerprint = i.fingerprint

theorem Registered.nil : Registered [] [] := ⟨List.nodup_nil, by simp, by simp⟩

/-- Items of one id have one fingerprint. -/
def Coherent (items : List Item) : Prop :=
  ∀ i ∈ items, ∀ j ∈ items, i.event.eventId = j.event.eventId → i.fingerprint = j.fingerprint

theorem Registered.coherent (h : Registered items events) : Coherent items := by
  intro i hi j hj hid
  obtain ⟨i', hi', hid', hfingerprint⟩ := h.covers i hi
  obtain ⟨j', hj', hjd', hfingerprint'⟩ := h.covers j hj
  have hsame : i' = j' := List.inj_on_of_nodup_map h.unique hi' hj' (hid'.trans (hid.trans hjd'.symm))
  rw [← hfingerprint, ← hfingerprint', hsame]

/-- All that the duplicate check can do. -/
theorem add_cases (hevents : ∀ i ∈ events, Fingerprinted s i) (hitem : Fingerprinted s item) :
    (∃ old ∈ events, old.event.eventId = item.event.eventId ∧ old.fingerprint = item.fingerprint ∧
      add s events item = .ok events) ∨
    (∃ old ∈ events, old.event.eventId = item.event.eventId ∧ old.fingerprint ≠ item.fingerprint ∧
      add s events item = .error .conflict) ∨
    ((∀ old ∈ events, old.event.eventId ≠ item.event.eventId) ∧ add s events item = .ok (events ++ [item])) := by
  unfold add
  cases hfind : events.find? fun old => old.event.eventId = item.event.eventId with
  | none =>
    refine Or.inr (Or.inr ⟨fun old hold hid => ?_, rfl⟩)
    exact List.find?_eq_none.mp hfind old hold (decide_eq_true hid)
  | some old =>
    have hold : old ∈ events := List.mem_of_find?_eq_some hfind
    have hid : old.event.eventId = item.event.eventId := by
      simpa using List.find?_some hfind
    have hceq := ceq_fingerprint (hevents old hold) hitem
    by_cases hfingerprint : old.fingerprint = item.fingerprint
    · exact Or.inl ⟨old, hold, hid, hfingerprint, if_pos (hceq.mpr hfingerprint)⟩
    · refine Or.inr (Or.inl ⟨old, hold, hid, hfingerprint, if_neg ?_⟩)
      exact fun h => hfingerprint (hceq.mp h)

theorem Registered.add (h : Registered items events) (hitems : ∀ i ∈ items, Fingerprinted s i)
    (hitem : Fingerprinted s item) (hadd : add s events item = .ok events') : Registered (items ++ [item]) events' := by
  have hevents : ∀ i ∈ events, Fingerprinted s i := fun i hi => hitems i (h.subset i hi)
  have hsubset : ∀ i ∈ events, i ∈ items ++ [item] := fun i hi => List.mem_append_left _ (h.subset i hi)
  rcases add_cases hevents hitem with ⟨old, hold, hid, hfingerprint, hok⟩ | ⟨-, -, -, -, herror⟩ | ⟨hnew, hok⟩
  · obtain rfl := Except.ok.inj (hok.symm.trans hadd)
    refine ⟨h.unique, hsubset, fun i hi => ?_⟩
    rcases List.mem_append.mp hi with hi | hi
    · exact h.covers i hi
    · obtain rfl := List.mem_singleton.mp hi
      exact ⟨old, hold, hid, hfingerprint⟩
  · rw [herror] at hadd
    cases hadd
  · obtain rfl := Except.ok.inj (hok.symm.trans hadd)
    refine ⟨?_, fun i hi => ?_, fun i hi => ?_⟩
    · rw [List.map_append, List.nodup_append]
      refine ⟨h.unique, List.nodup_singleton _, ?_⟩
      rintro id hid id' hid' rfl
      obtain ⟨old, hold, rfl⟩ := List.mem_map.mp hid
      exact hnew old hold (List.mem_singleton.mp hid')
    · rcases List.mem_append.mp hi with hi | hi
      · exact hsubset i hi
      · exact List.mem_append_right _ hi
    · rcases List.mem_append.mp hi with hi | hi
      · obtain ⟨j, hj, hsame⟩ := h.covers i hi
        exact ⟨j, List.mem_append_left _ hj, hsame⟩
      · obtain rfl := List.mem_singleton.mp hi
        exact ⟨i, List.mem_append_right _ hi, rfl, rfl⟩

theorem Registered.addAll {before : List Item} (h : Registered before events)
    (hfingerprints : ∀ i ∈ before ++ items, Fingerprinted s i) (hadd : items.foldlM (Candidates.add s) events = .ok events') :
    Registered (before ++ items) events' := by
  induction items generalizing before events with
  | nil =>
    obtain rfl := Except.ok.inj hadd
    simpa using h
  | cons item items ih =>
    rw [List.foldlM_cons] at hadd
    obtain ⟨next, hnext, hadd⟩ := bind_eq_ok.mp hadd
    have hbefore : ∀ i ∈ before, Fingerprinted s i := fun i hi => hfingerprints i (List.mem_append_left _ hi)
    have hstep := h.add hbefore (hfingerprints item (by simp)) hnext
    have hall := ih hstep (fun i hi => hfingerprints i (by simpa using hi)) hadd
    simpa using hall

/-- Coherent items are all taken. -/
theorem Registered.total {before : List Item} (h : Registered before events)
    (hfingerprints : ∀ i ∈ before ++ items, Fingerprinted s i) (hcoherent : Coherent (before ++ items)) :
    ∃ events', items.foldlM (Candidates.add s) events = .ok events' := by
  induction items generalizing before events with
  | nil => exact ⟨events, rfl⟩
  | cons item items ih =>
    have hbefore : ∀ i ∈ before, Fingerprinted s i := fun i hi => hfingerprints i (List.mem_append_left _ hi)
    have hitem : Fingerprinted s item := hfingerprints item (by simp)
    have hnext : ∃ next, Candidates.add s events item = .ok next := by
      rcases add_cases (fun i hi => hbefore i (h.subset i hi)) hitem with
        ⟨-, -, -, -, hok⟩ | ⟨old, hold, hid, hne, -⟩ | ⟨-, hok⟩
      · exact ⟨_, hok⟩
      · refine absurd (hcoherent old ?_ item (by simp) hid) hne
        exact List.mem_append_left _ (h.subset old hold)
      · exact ⟨_, hok⟩
    obtain ⟨next, hnext⟩ := hnext
    obtain ⟨events', hevents'⟩ := ih (h.add hbefore hitem hnext) (fun i hi => hfingerprints i (by simpa using hi))
      (by simpa using hcoherent)
    refine ⟨events', ?_⟩
    rw [List.foldlM_cons, hnext]
    exact hevents'

/-- The loop inspects every event and registers what it has found. -/
theorem registerAll_eq_ok {xs : List Element} :
    xs.foldlM (register s t) events = .ok events' ↔
      ∃ items, xs.mapM (inspect s t) = .ok items ∧ items.foldlM (add s) events = .ok events' := by
  induction xs generalizing events with
  | nil =>
    constructor
    · intro h
      exact ⟨[], rfl, h⟩
    · rintro ⟨items, hitems, h⟩
      obtain rfl := Except.ok.inj hitems
      exact h
  | cons x xs ih =>
    rw [List.foldlM_cons, List.mapM_cons, bind_eq_ok]
    constructor
    · rintro ⟨next, hnext, h⟩
      obtain ⟨item, hitem, hnext⟩ := bind_eq_ok.mp hnext
      obtain ⟨items, hitems, h⟩ := ih.mp h
      refine ⟨item :: items, ?_, ?_⟩
      · rw [hitem, hitems]
        rfl
      · rw [List.foldlM_cons, hnext]
        exact h
    · rintro ⟨items, hitems, h⟩
      obtain ⟨item, hitem, hitems⟩ := bind_eq_ok.mp hitems
      obtain ⟨rest, hrest, hitems⟩ := bind_eq_ok.mp hitems
      obtain rfl := Except.ok.inj hitems
      rw [List.foldlM_cons] at h
      obtain ⟨next, hnext, h⟩ := bind_eq_ok.mp h
      refine ⟨next, ?_, ih.mpr ⟨rest, hrest, h⟩⟩
      rw [register, hitem]
      exact hnext

theorem fingerprinted_of_mapM {xs : List Element} (h : xs.mapM (inspect s t) = .ok items) :
    ∀ i ∈ items, Fingerprinted s i := by
  intro i hi
  obtain ⟨x, -, hx⟩ := exists_of_mem_right (mapM_eq_ok.mp h) hi
  obtain ⟨raw, -, -, -, hfingerprint⟩ := inspect_eq_ok hx
  exact ⟨raw, hfingerprint⟩

theorem registered_of_loop {xs : List Element} (h : xs.foldlM (register s t) [] = .ok events) :
    ∃ items, xs.mapM (inspect s t) = .ok items ∧ Registered items events := by
  obtain ⟨items, hitems, hadd⟩ := registerAll_eq_ok.mp h
  have hall := Registered.nil.addAll (by simpa using fingerprinted_of_mapM hitems) hadd
  exact ⟨items, hitems, by simpa using hall⟩

/-- SHA-256 keeps the canonical forms of these elements apart. -/
def CollisionFree (s : Shell) (xs : List Element) : Prop :=
  ∀ a ∈ xs, ∀ b ∈ xs, ∀ raw raw', canonical a = .ok raw → canonical b = .ok raw' → s.digest raw = s.digest raw' →
    raw = raw'

/-- What has been inspected was well-formed. -/
theorem inspect_parsed {x : Element} (hx : inspect s t x = .ok item) : Parsed 1000 x ∧ ¬ HasDuplicate x := by
  obtain ⟨raw, hraw, -⟩ := inspect_eq_ok hx
  obtain ⟨written, hwritten, -⟩ := bind_eq_ok.mp hraw
  refine ⟨write_parsed hwritten, fun hdup => ?_⟩
  obtain ⟨failure, hfailure⟩ := (canonical_throws_iff (write_parsed hwritten) le_rfl).mpr hdup
  rw [hraw] at hfailure
  cases hfailure

/-- Events have one fingerprint exactly when they are the same. -/
theorem fingerprint_eq_iff {xs : List Element} (hfree : CollisionFree s xs) {x y : Element} (hx : x ∈ xs)
    (hy : y ∈ xs) {i j : Item} (hi : inspect s t x = .ok i) (hj : inspect s t y = .ok j) :
    i.fingerprint = j.fingerprint ↔ Same x y := by
  obtain ⟨hparsed, hunique⟩ := inspect_parsed hi
  obtain ⟨hparsed', hunique'⟩ := inspect_parsed hj
  obtain ⟨raw, hraw, -, -, hfingerprint⟩ := inspect_eq_ok hi
  obtain ⟨raw', hraw', -, -, hfingerprint'⟩ := inspect_eq_ok hj
  rw [← canonical_eq_iff hparsed hparsed' le_rfl hunique hunique', hraw, hraw', hfingerprint, hfingerprint']
  constructor
  · intro hdigest
    rw [hfree x hx y hy raw raw' hraw hraw' hdigest]
  · intro hcanonical
    rw [Except.ok.inj hcanonical]

/-- An event whose id is known is left out when it is the same event, and else it is refused. -/
theorem register_known {seen : List Element} {x e : Element}
    (hfree : CollisionFree s (x :: seen)) (hseen : seen.foldlM (register s t) [] = .ok events)
    (hx : inspect s t x = .ok item) (he : e ∈ seen)
    (hid : (normalizedEvent e).map Event.eventId = some item.event.eventId) :
    (Same e x → register s t events x = .ok events) ∧ (¬ Same e x → register s t events x = .error .conflict) := by
  obtain ⟨items, hitems, hregistered⟩ := registered_of_loop hseen
  obtain ⟨known, hknown, hinspect⟩ := exists_of_mem_left (mapM_eq_ok.mp hitems) he
  have hknownId : known.event.eventId = item.event.eventId := by
    obtain ⟨-, -, hevent, -, -⟩ := inspect_eq_ok hinspect
    rw [hevent] at hid
    exact Option.some.inj hid
  have hsame : known.fingerprint = item.fingerprint ↔ Same e x :=
    fingerprint_eq_iff hfree (List.mem_cons_of_mem _ he) List.mem_cons_self hinspect hx
  have hregister : register s t events x = add s events item := by
    rw [register, hx]
    rfl
  have hitem : Fingerprinted s item := by
    obtain ⟨raw, -, -, -, hfingerprint⟩ := inspect_eq_ok hx
    exact ⟨raw, hfingerprint⟩
  have hevents : ∀ i ∈ events, Fingerprinted s i := fun i hi =>
    fingerprinted_of_mapM hitems i (hregistered.subset i hi)
  -- whatever entry of this id the loop has kept has the fingerprint of `e`
  have hold (old : Item) (hmem : old ∈ events) (holdId : old.event.eventId = item.event.eventId) :
      old.fingerprint = known.fingerprint :=
    hregistered.coherent old (hregistered.subset old hmem) known hknown (holdId.trans hknownId.symm)
  rw [hregister]
  rcases add_cases hevents hitem with ⟨old, hmem, holdId, heq, hok⟩ | ⟨old, hmem, holdId, hne, herror⟩ | ⟨hnew, -⟩
  · constructor
    · intro _
      exact hok
    · intro hnot
      exact absurd (hsame.mp ((hold old hmem holdId).symm.trans heq)) hnot
  · constructor
    · intro h
      exact absurd ((hold old hmem holdId).trans (hsame.mpr h)) hne
    · intro _
      exact herror
  · obtain ⟨old, hmem, holdId, -⟩ := hregistered.covers known hknown
    exact absurd (holdId.trans hknownId) (hnew old hmem)

/-- The canonical form decides equality, and with it whether an event is a duplicate. -/
theorem canonical_decides :
    (∀ n ≤ 1000, ∀ a b, Parsed n a → Parsed n b → ¬ HasDuplicate a → ¬ HasDuplicate b →
      (canonical a = canonical b ↔ Same a b)) ∧
    (∀ n ≤ 1000, ∀ e, Parsed n e → ((∃ failure, canonical e = .error failure) ↔ HasDuplicate e)) ∧
    ∀ (s : Shell) (evaluationTime : ℤ) (seen : List Element) (registered : List Item) (x e : Element) (item : Item),
      CollisionFree s (x :: seen) → seen.foldlM (register s evaluationTime) [] = .ok registered →
      inspect s evaluationTime x = .ok item → e ∈ seen →
      (normalizedEvent e).map Event.eventId = some item.event.eventId →
      (Same e x → register s evaluationTime registered x = .ok registered) ∧
        (¬ Same e x → register s evaluationTime registered x = .error .conflict) := by
  refine ⟨?_, ?_, ?_⟩
  · intro n hn a b ha hb hua hub
    exact canonical_eq_iff ha hb hn hua hub
  · intro n hn e he
    exact canonical_throws_iff he hn
  · intro s evaluationTime seen registered x e item hfree hseen hx he hid
    exact register_known hfree hseen hx he hid

end Loop

section Fixture

def literal (t : String) : List Piece := (text t).map .plain

def fixtureBinary (path : String) : Element :=
  .object [] [(literal "sha256", .string (List.replicate 64 (.plain 97))), (literal "path", .string (literal path)),
    (literal "pathClassification", .string (literal "redacted")), (literal "teamId", .null),
    (literal "signingId", .null), (literal "cdhash", .null)]

/-- An event of the fixture, as its members. -/
def fixtureMembers (eventId path : String) : List (List Piece × Element) :=
  [(literal "schemaVersion", .string (literal "1.0")), (literal "eventId", .string (literal eventId)),
    (literal "observedAt", .string (literal "2026-09-21T18:00:00Z")),
    (literal "client", .object [] [(literal "santaVersion", .string (literal "2026.8")),
      (literal "syncProfile", .string (literal "deployment-only"))]),
    (literal "device", .object [] [(literal "pseudonymousId", .string (literal "device-7f32a948"))]),
    (literal "decision", .string (literal "DENY")),
    (literal "binary", fixtureBinary path),
    (literal "rawEvidence", .object [] [(literal "sha256", .string (List.replicate 64 (.plain 98))),
      (literal "reference", .string (literal "retention://events/evt-001"))])]

theorem wellFormed_plain {t : Text} (ht : ∀ c ∈ t, isScalar c = true) : WellFormed (unescape (t.map .plain)) := by
  refine ⟨t, ht, ?_⟩
  rw [unescape, utf16, List.flatMap_map]
  rfl

theorem isScalar_text (t : String) : ∀ n ∈ text t, isScalar n = true := by
  intro n hn
  obtain ⟨c, -, rfl⟩ := List.mem_map.mp hn
  have hvalid := c.valid
  simp only [isScalar, isSurrogate, Bool.and_eq_true, decide_eq_true_eq, Bool.not_eq_true', Bool.and_eq_false_iff,
    decide_eq_false_iff_not]
  rcases hvalid with hlow | ⟨hhigh, hlast⟩
  · have hlow : c.toNat < 0xD800 := hlow
    omega
  · have hhigh : 0xDFFF < c.toNat := hhigh
    have hlast : c.toNat < 0x110000 := hlast
    omega

theorem wellFormed_literal (t : String) : WellFormed (unescape (literal t)) :=
  wellFormed_plain (isScalar_text t)

theorem fixtureMembers_parsed (n : ℕ) (eventId path : String) :
    Parsed (n + 2) (.object [] (fixtureMembers eventId path)) := by
  have hliteral {n : ℕ} (t : String) : Parsed n (.string (literal t)) := .string (wellFormed_literal t)
  have hhash {n c : ℕ} (hc : isScalar c = true) : Parsed n (.string (List.replicate 64 (.plain c))) := by
    rw [← List.map_replicate (f := Piece.plain)]
    apply Parsed.string
    apply wellFormed_plain
    intro c' hc'
    rw [List.eq_of_mem_replicate hc']
    exact hc
  have ha : isScalar 97 = true := rfl
  have hb : isScalar 98 = true := rfl
  unfold fixtureMembers fixtureBinary
  apply Parsed.object
  · simp [wellFormed_literal]
  · simp only [List.forall_mem_cons, List.not_mem_nil, false_implies, implies_true, and_true, hliteral, true_and]
    refine ⟨.object ?_ ?_, .object ?_ ?_, .object ?_ ?_, .object ?_ ?_⟩ <;>
      simp only [List.forall_mem_cons, List.not_mem_nil, false_implies, implies_true, and_true, wellFormed_literal,
        hliteral, Parsed.null, hhash ha, hhash hb]

def fixtureEvent : Element := .object [] (fixtureMembers "evt-001" "<redacted>/tool")

def fixtureReordered : Element := .object [] (fixtureMembers "evt-001" "<redacted>/tool").reverse

def fixtureChanged : Element := .object [] (fixtureMembers "evt-001" "<redacted>/other")

def fixtureParameters : Parameters := ⟨.blocklist, 639256320000000000, 639262368000000000⟩

def lowerHex (n : ℕ) : ℕ := if n < 10 then 48 + n else 87 + n

/-- A hash value in hexadecimal. -/
def hashText (hash : ℕ) : Text := (List.range 64).map fun i => lowerHex (hash / 16 ^ (63 - i) % 16)

theorem isSha256_hashText (hash : ℕ) : isSha256 (hashText hash) = true := by
  have hdigit (n : ℕ) (hn : n < 16) : (isDigit (lowerHex n) || (97 ≤ lowerHex n && lowerHex n ≤ 102)) = true := by
    interval_cases n <;> rfl
  simp only [isSha256, hashText, List.length_map, List.length_range, List.all_map, decide_true, Bool.true_and]
  apply List.all_eq_true.mpr
  intro i _
  exact hdigit _ (Nat.mod_lt _ (by norm_num))

/-- SHA-256 of the inputs that occur with the fixture, by their length. -/
def fixtureHash (length : ℕ) : ℕ :=
  if length = 542 then 0xcf5d59e19915c974b145801c1e690704ba1aefb267e87e03033dd6ed591b2055
  else if length = 543 then 0xe3bc8fb6c684db4452a151d110afd140dcd2745f58d5a76e84e003f226283bc8
  else if length = 294 then 0x780da2bc46578d8a1935dee9c5c06e12fb81f544c0771c5fadac2e8c22e1f642
  else if length = 768 then 0xf9e7d48ac053e7dffbeb8bdff3e51d0bd8952143167e00062443a9c662baf4eb
  else 0xdef2a0730a6319bf40b59d26c673247d2f2d5a0eb4e301a73b3454c05d75699e

def fixtureShell : Shell where
  comparison := .ordinal
  schema _ := true
  schema_same _ _ _ := rfl
  parseTime _ := some 639256104000000000
  formatTime t :=
    if t = 639256104000000000 then name "2026-09-21T18:00:00.0000000Z"
    else if t = 639256320000000000 then name "2026-09-22T00:00:00.0000000Z"
    else name "2026-09-29T00:00:00.0000000Z"
  digest raw := hashText (fixtureHash raw.length)
  digest_hex _ := isSha256_hashText _

theorem fixture_reordered : Same fixtureEvent fixtureReordered :=
  .of_perm (List.reverse_perm _).symm

/-- An event of the fixture after its inspection. -/
def fixtureItem (fingerprint : ℕ) : Item :=
  ⟨⟨name "evt-001", name "2026-09-21T18:00:00Z", name "DENY", List.replicate 64 97, name "device-7f32a948",
    List.replicate 64 98⟩, 639256104000000000, hashText fingerprint⟩

/-- The entry of the unchanged event. -/
def fixtureEntry : Item := fixtureItem (fixtureHash 542)

theorem fixture_inspect : inspect fixtureShell 639256320000000000 fixtureEvent = .ok fixtureEntry := by
  decide +kernel

theorem fixture_inspect_reordered :
    inspect fixtureShell 639256320000000000 fixtureReordered = .ok fixtureEntry := by
  obtain ⟨hparsed, hunique⟩ := inspect_parsed fixture_inspect
  rw [← inspect_same fixtureShell _ fixture_reordered hparsed le_rfl hunique]
  exact fixture_inspect

theorem fixture_inspect_changed : inspect fixtureShell 639256320000000000 fixtureChanged =
    .ok (fixtureItem (fixtureHash 543)) := by
  decide +kernel

/-- Events of one fingerprint have one canonical form when they are the same. -/
theorem collisionFree_pair {s : Shell} {x y : Element}
    (h : ∀ raw raw', canonical x = .ok raw → canonical y = .ok raw' → s.digest raw = s.digest raw' → raw = raw') :
    CollisionFree s [x, y] := by
  have hself (a : Element) (raw raw' : Bytes) (hraw : canonical a = .ok raw) (hraw' : canonical a = .ok raw') :
      raw = raw' := Except.ok.inj (hraw.symm.trans hraw')
  simp only [CollisionFree, List.forall_mem_cons, List.not_mem_nil, false_implies, implies_true, and_true]
  refine ⟨⟨fun raw raw' hx hx' _ => hself x raw raw' hx hx', h⟩, fun raw raw' hy hx hdigest => ?_,
    fun raw raw' hy hy' _ => hself y raw raw' hy hy'⟩
  exact (h raw' raw hx hy hdigest.symm).symm

theorem canonical_decides_fixture :
    register fixtureShell 639256320000000000 [fixtureEntry] fixtureReordered = .ok [fixtureEntry] ∧
    register fixtureShell 639256320000000000 [fixtureEntry] fixtureChanged = .error .conflict := by
  have hseen : [fixtureEvent].foldlM (register fixtureShell 639256320000000000) [] = .ok [fixtureEntry] :=
    registerAll_eq_ok.mpr ⟨[fixtureEntry], mapM_eq_ok.mpr (.cons fixture_inspect .nil), rfl⟩
  have hid : (normalizedEvent fixtureEvent).map Event.eventId = some fixtureEntry.event.eventId := by
    obtain ⟨-, -, hevent, -⟩ := inspect_eq_ok fixture_inspect
    rw [hevent]
    rfl
  have hreordered : CollisionFree fixtureShell [fixtureReordered, fixtureEvent] := by
    obtain ⟨hparsed, hunique⟩ := inspect_parsed fixture_inspect
    apply collisionFree_pair
    intro raw raw' hraw hraw' _
    rw [← canonical_same fixture_reordered hparsed le_rfl hunique] at hraw
    exact Except.ok.inj (hraw.symm.trans hraw')
  have hchanged : CollisionFree fixtureShell [fixtureChanged, fixtureEvent] := by
    apply collisionFree_pair
    intro raw raw' hraw hraw' hdigest
    obtain ⟨raw1, hraw1, -, -, hfingerprint⟩ := inspect_eq_ok fixture_inspect_changed
    obtain ⟨raw2, hraw2, -, -, hfingerprint'⟩ := inspect_eq_ok fixture_inspect
    obtain rfl := Except.ok.inj (hraw1.symm.trans hraw)
    obtain rfl := Except.ok.inj (hraw2.symm.trans hraw')
    rw [← hfingerprint, ← hfingerprint'] at hdigest
    exact absurd hdigest (by decide)
  have hdiffers : ¬ Same fixtureEvent fixtureChanged := by
    intro hsame
    have hfingerprints := (fingerprint_eq_iff hchanged (by simp) (by simp) fixture_inspect fixture_inspect_changed).mpr hsame
    exact absurd hfingerprints (by decide)
  constructor
  · exact (canonical_decides.2.2 fixtureShell _ [fixtureEvent] [fixtureEntry] fixtureReordered fixtureEvent _ hreordered
      hseen fixture_inspect_reordered List.mem_cons_self hid).1 fixture_reordered
  · exact (canonical_decides.2.2 fixtureShell _ [fixtureEvent] [fixtureEntry] fixtureChanged fixtureEvent _ hchanged
      hseen fixture_inspect_changed List.mem_cons_self hid).2 hdiffers

end Fixture
end Candidates
