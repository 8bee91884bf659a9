import AzdSanta.Python.JsonOrder
import AzdSanta.Sync.Paging

/-! What a device uploaded: the digests of its events, once each. -/
namespace Sync
open Checks Python

/-- An upload of `d` that holds `event` is answered 200. -/
def Uploaded (p : Process) (m : Model) (d : Device) (event : Json) : Event → Prop
  | .request r => r.device = d ∧ r.stage = .eventupload ∧
      (∃ reply, (m.handle p r).2 = .ok reply ∧ reply.status = 200) ∧
      ∃ batch, r.body.get "events" = some (.arr batch) ∧ event ∈ batch
  | _ => False

/-- `event` was in a batch that was accepted from `d`. -/
def Accepted (p : Process) (start : Model) (events : List Event) (d : Device) (event : Json) : Prop :=
  ∃ step earlier, step :: earlier <:+ events ∧ Uploaded p (start.after p earlier) d event step

section Upload
variable {p : Process} {m : Model} {r : Request} {batch : List Json} {event : Json} {d : Device}

theorem uploadEvents_eq_some : uploadEvents r.body = some batch ↔
    r.body.get "events" = some (.arr batch) ∧ 1 ≤ batch.length ∧ batch.length ≤ maxEvents ∧
      batch.all eventShape = true := by
  unfold uploadEvents
  split
  · next events hevents =>
    rw [hevents, Option.some.injEq, Json.arr.injEq]
    constructor
    · intro h
      split_ifs at h with hchecks
      obtain rfl := Option.some.inj h
      exact ⟨rfl, hchecks⟩
    · rintro ⟨rfl, hchecks⟩
      exact if_pos hchecks
  · next hnot =>
    constructor
    · intro h
      cases h
    · rintro ⟨hevents, -⟩
      exact absurd hevents (hnot batch)

theorem digest_eq_ok {codec : Codec} {digest : Text} : codec.sha256 <$> codec.canonical event = .ok digest ↔
    ∃ raw, codec.canonical event = .ok raw ∧ digest = codec.sha256 raw := by
  cases codec.canonical event with
  | error failure => simp [Functor.map, Except.map]
  | ok raw => simp [Functor.map, Except.map, eq_comm]

theorem mem_digests {codec : Codec} {digests : List Text} (h : eventDigests codec batch = .ok digests)
    {digest : Text} : digest ∈ digests ↔
      ∃ event raw, event ∈ batch ∧ codec.canonical event = .ok raw ∧ digest = codec.sha256 raw := by
  have hall := mapM_eq_ok.mp h
  constructor
  · intro hmem
    obtain ⟨event, hevent, hdigest⟩ := exists_of_mem_right hall hmem
    obtain ⟨raw, hraw, hsha⟩ := digest_eq_ok.mp hdigest
    exact ⟨event, raw, hevent, hraw, hsha⟩
  · rintro ⟨event, raw, hevent, hraw, rfl⟩
    obtain ⟨digest, hmem, hdigest⟩ := exists_of_mem_left hall hevent
    obtain ⟨raw', hraw', rfl⟩ := digest_eq_ok.mp hdigest
    obtain rfl := Except.ok.inj (hraw.symm.trans hraw')
    exact hmem

theorem handle_eventupload {session : Session} (hnamed : r.named = true) (hsession : m.sessions r.device = some session)
    (hlive : session.live r.now = true) (hstage : r.stage = .eventupload) : m.handle p r = m.eventupload p r := by
  simp [Model.handle, hnamed, hstage, hsession, hlive]

/-- All that an upload can do. -/
theorem upload_cases (hstage : r.stage = .eventupload) :
    ((m.handle p r).1 = m ∧ ∀ reply, (m.handle p r).2 = .ok reply → reply.status ≠ 200) ∨
      ∃ batch digests combined, uploadEvents r.body = some batch ∧ eventDigests p.codec batch = .ok digests ∧
        combined = m.eventDigests r.device ∪ digests.toFinset ∧ combined.card ≤ maxEventDigests ∧
        m.handle p r =
          ({ m with eventDigests := Function.update m.eventDigests r.device combined }, .ok (.bare 200)) := by
  have hrefused (status : ℕ) (hstatus : status ≠ 200) (h : m.handle p r = (m, .ok (.bare status))) :
      (m.handle p r).1 = m ∧ ∀ reply, (m.handle p r).2 = .ok reply → reply.status ≠ 200 := by
    rw [h]
    constructor
    · rfl
    · intro reply hreply
      rw [← Except.ok.inj hreply]
      exact hstatus
  by_cases hnamed : r.named = true
  · cases hsession : m.sessions r.device with
    | none => exact Or.inl (hrefused 409 (by norm_num) (by simp [Model.handle, hnamed, hstage, hsession]))
    | some session =>
      by_cases hlive : session.live r.now = true
      · have hhandle := handle_eventupload (p := p) hnamed hsession hlive hstage
        cases hbatch : uploadEvents r.body with
        | none => exact Or.inl (hrefused 400 (by norm_num) (by rw [hhandle, Model.eventupload, hbatch]))
        | some batch =>
          cases hdigests : eventDigests p.codec batch with
          | error failure =>
            apply Or.inl
            rw [hhandle, Model.eventupload, hbatch]
            simp only [hdigests]
            exact ⟨trivial, fun reply hreply => by cases hreply⟩
          | ok digests =>
            by_cases hcard : (m.eventDigests r.device ∪ digests.toFinset).card > maxEventDigests
            · apply Or.inl
              apply hrefused 429 (by norm_num)
              rw [hhandle, Model.eventupload, hbatch]
              simp only [hdigests, if_pos hcard]
            · refine Or.inr ⟨batch, digests, _, rfl, hdigests, rfl, not_lt.mp hcard, ?_⟩
              rw [hhandle, Model.eventupload, hbatch]
              simp only [hdigests, if_neg hcard]
      · exact Or.inl (hrefused 409 (by norm_num) (by simp [Model.handle, hnamed, hstage, hsession, hlive]))
  · exact Or.inl (hrefused 403 (by norm_num) (by simp [Model.handle, hnamed]))

theorem Handled.eventDigests {m' : Model} {outcome : Except Failure Reply} (h : Handled p m r m' outcome)
    (hstage : r.stage ≠ .eventupload) : m'.eventDigests = m.eventDigests := by
  cases h with
  | refused | kept | pinned | served | acknowledged => rfl
  | uploaded _ hother => exact absurd hother hstage

/-- A request leaves the digests of the other device alone. -/
theorem handle_frame (hd : d ≠ r.device) : (m.handle p r).1.eventDigests d = m.eventDigests d := by
  by_cases hstage : r.stage = .eventupload
  · rcases upload_cases (m := m) (p := p) hstage with ⟨hkept, -⟩ | ⟨batch, digests, combined, -, -, -, -, hhandle⟩
    · rw [hkept]
    · rw [hhandle]
      exact Function.update_of_ne hd _ _
  · rw [(handle_handled p m r).eventDigests hstage]

/-- What one step adds. -/
theorem mem_step {step : Event} {digest : Text} : digest ∈ (m.step p step).eventDigests d ↔
    digest ∈ m.eventDigests d ∨ ∃ event raw, Uploaded p m d event step ∧ p.codec.canonical event = .ok raw ∧
      digest = p.codec.sha256 raw := by
  have hsame (hevents : (m.step p step).eventDigests d = m.eventDigests d) (hnone : ∀ event, ¬ Uploaded p m d event step) :
      digest ∈ (m.step p step).eventDigests d ↔ digest ∈ m.eventDigests d ∨ ∃ event raw,
        Uploaded p m d event step ∧ p.codec.canonical event = .ok raw ∧ digest = p.codec.sha256 raw := by
    rw [hevents]
    constructor
    · exact Or.inl
    · rintro (hold | ⟨event, -, huploaded, -⟩)
      · exact hold
      · exact absurd huploaded (hnone event)
  cases step with
  | replace snapshot => exact hsame rfl fun _ h => h
  | revoke device => exact hsame rfl fun _ h => h
  | rotate device token => exact hsame rfl fun _ h => h
  | request r =>
    by_cases hd : d = r.device
    · subst hd
      by_cases hstage : r.stage = .eventupload
      · rcases upload_cases (m := m) (p := p) hstage with ⟨hkept, hrefused⟩ |
            ⟨batch, digests, combined, hbatch, hdigests, rfl, -, hhandle⟩
        · apply hsame
          · rw [Model.step, hkept]
          · rintro event ⟨-, -, ⟨reply, hreply, hstatus⟩, -⟩
            exact hrefused reply hreply hstatus
        · have hbody := (uploadEvents_eq_some.mp hbatch).1
          rw [Model.step, hhandle]
          simp only [Function.update_self, Finset.mem_union, List.mem_toFinset, mem_digests hdigests]
          apply or_congr_right
          constructor
          · rintro ⟨event, raw, hevent, hraw⟩
            have hreply : (m.handle p r).2 = .ok (.bare 200) := by rw [hhandle]
            exact ⟨event, raw, ⟨rfl, hstage, ⟨_, hreply, rfl⟩, batch, hbody, hevent⟩, hraw⟩
          · rintro ⟨event, raw, ⟨-, -, -, batch', hbody', hevent⟩, hraw⟩
            obtain rfl := Json.arr.inj (Option.some.inj (hbody.symm.trans hbody'))
            exact ⟨event, raw, hevent, hraw⟩
      · apply hsame
        · rw [Model.step, (handle_handled p m r).eventDigests hstage]
        · rintro event ⟨-, hupload, -⟩
          exact hstage hupload
    · apply hsame
      · exact handle_frame hd
      · rintro event ⟨hdevice, -⟩
        exact hd hdevice.symm

theorem step_card (step : Event) (h : (m.eventDigests d).card ≤ maxEventDigests) :
    ((m.step p step).eventDigests d).card ≤ maxEventDigests := by
  cases step with
  | replace | revoke | rotate => exact h
  | request r =>
    by_cases hd : d = r.device
    · subst hd
      by_cases hstage : r.stage = .eventupload
      · rcases upload_cases (m := m) (p := p) hstage with ⟨hkept, -⟩ | ⟨batch, digests, combined, -, -, -, hcard, hhandle⟩
        · rwa [Model.step, hkept]
        · rw [Model.step, hhandle]
          simpa only [Function.update_self] using hcard
      · rwa [Model.step, (handle_handled p m r).eventDigests hstage]
    · rwa [Model.step, handle_frame hd]

/-- An accepted event has the shape of one and is canonical. -/
theorem Uploaded.sound {step : Event} (h : Uploaded p m d event step) :
    eventShape event = true ∧ ∃ raw, p.codec.canonical event = .ok raw := by
  cases step with
  | request r =>
    obtain ⟨-, hstage, ⟨reply, hreply, hstatus⟩, batch, hbody, hevent⟩ := h
    rcases upload_cases (m := m) (p := p) hstage with ⟨-, hrefused⟩ | ⟨batch', digests, combined, hbatch, hdigests, -⟩
    · exact absurd hstatus (hrefused reply hreply)
    · obtain ⟨hbody', -, -, hshape⟩ := uploadEvents_eq_some.mp hbatch
      obtain rfl := Json.arr.inj (Option.some.inj (hbody.symm.trans hbody'))
      obtain ⟨digest, -, hdigest⟩ := exists_of_mem_left (mapM_eq_ok.mp hdigests) hevent
      obtain ⟨raw, hraw, -⟩ := digest_eq_ok.mp hdigest
      exact ⟨List.all_eq_true.mp hshape event hevent, raw, hraw⟩
  | replace | revoke | rotate => exact h.elim

end Upload

section Runs
variable {p : Process} {start : Model} {d : Device}

theorem accepted_cons {step : Event} {events : List Event} {event : Json} :
    Accepted p start (step :: events) d event ↔
      Uploaded p (start.after p events) d event step ∨ Accepted p start events d event := by
  constructor
  · rintro ⟨step', earlier, hsuffix, huploaded⟩
    rcases List.suffix_cons_iff.mp hsuffix with heq | hlater
    · obtain ⟨rfl, rfl⟩ := List.cons.inj heq
      exact Or.inl huploaded
    · exact Or.inr ⟨step', earlier, hlater, huploaded⟩
  · rintro (huploaded | ⟨step', earlier, hsuffix, huploaded⟩)
    · exact ⟨step, events, List.suffix_refl _, huploaded⟩
    · exact ⟨step', earlier, hsuffix.trans (List.suffix_cons _ _), huploaded⟩

/-- A run adds the digests of the accepted events and no others. -/
theorem mem_after (events : List Event) {digest : Text} : digest ∈ (start.after p events).eventDigests d ↔
    digest ∈ start.eventDigests d ∨ ∃ event raw, Accepted p start events d event ∧
      p.codec.canonical event = .ok raw ∧ digest = p.codec.sha256 raw := by
  induction events with
  | nil =>
    constructor
    · exact Or.inl
    · rintro (hold | ⟨event, -, ⟨step, earlier, hsuffix, -⟩, -⟩)
      · exact hold
      · exact absurd (List.suffix_nil.mp hsuffix) (List.cons_ne_nil _ _)
  | cons step events ih =>
    rw [Model.after, mem_step, ih, or_assoc]
    apply or_congr_right
    simp only [accepted_cons, or_and_right, exists_or]
    exact or_comm

theorem after_card (h : (start.eventDigests d).card ≤ maxEventDigests) (events : List Event) :
    ((start.after p events).eventDigests d).card ≤ maxEventDigests := by
  induction events with
  | nil => exact h
  | cons step events ih => exact step_card step ih

theorem after_mono (later earlier : List Event) :
    (start.after p earlier).eventDigests d ⊆ (start.after p (later ++ earlier)).eventDigests d := by
  induction later with
  | nil => exact Finset.Subset.refl _
  | cons step later ih =>
    intro digest hdigest
    exact mem_step.mpr (Or.inl (ih hdigest))

/-- An event of the shape keeps it when its members change places. -/
theorem eventShape_reordered {v v' : Json} (h : Reordered v v') (hunique : ¬ Duplicate v)
    (hshape : eventShape v = true) : eventShape v' = true := by
  cases v with
  | obj event =>
    obtain ⟨event', rfl, hstrings⟩ := h.lookup hunique
    rw [eventShape, Bool.and_eq_true] at hshape ⊢
    obtain ⟨hfile, hdecision⟩ := hshape
    constructor
    · split at hfile
      · next s hs =>
        rw [Dict.get, hstrings _ s hs]
        exact hfile
      · cases hfile
    · split at hdecision
      · next decision hs =>
        cases decision with
        | str s =>
          rw [Dict.get, hstrings _ s hs]
          exact hdecision
        | null | bool | int | float | arr | obj => cases hdecision
      · cases hdecision
  | null | bool | int | float | str | arr => cases hshape

theorem canonical_reordered (i : Interpreter) {v v' : Json} (h : Reordered v v') (hunique : ¬ Duplicate v) :
    i.process.codec.canonical v' = i.process.codec.canonical v := by
  have hprint := h.print (w := canonicalWriter (i.spare + 1)) rfl hunique (i.spare + 1)
  have hdumps : (canonicalWriter (i.spare + 1)).dumps v' = (canonicalWriter (i.spare + 1)).dumps v := hprint
  show ofJson ((canonicalWriter (i.spare + 1)).dumpsBytes v') = ofJson ((canonicalWriter (i.spare + 1)).dumpsBytes v)
  rw [Writer.dumpsBytes, Writer.dumpsBytes, hdumps]

/-- Digests that are known already change nothing, also when there is room for no other. -/
theorem upload_known {m : Model} {r : Request} {session : Session} {batch : List Json} {digests : List Text}
    (hnamed : r.named = true) (hsession : m.sessions r.device = some session) (hlive : session.live r.now = true)
    (hstage : r.stage = .eventupload) (hbatch : uploadEvents r.body = some batch)
    (hdigests : eventDigests p.codec batch = .ok digests) (hknown : ∀ digest ∈ digests, digest ∈ m.eventDigests r.device)
    (hcard : (m.eventDigests r.device).card ≤ maxEventDigests) : m.handle p r = (m, .ok (.bare 200)) := by
  have hcombined : m.eventDigests r.device ∪ digests.toFinset = m.eventDigests r.device := by
    apply Finset.union_eq_left.mpr
    intro digest hdigest
    exact hknown digest (List.mem_toFinset.mp hdigest)
  rw [handle_eventupload hnamed hsession hlive hstage, Model.eventupload, hbatch]
  simp only [hdigests, hcombined, if_neg (not_lt.mpr hcard), Function.update_eq_self]

end Runs

/-- `r` uploads `batch` in a live session. -/
structure Uploads (m : Model) (r : Request) (batch : List Json) : Prop where
  stage : r.stage = .eventupload
  named : r.named = true
  live : ∃ session, m.sessions r.device = some session ∧ session.live r.now = true
  events : r.body.get "events" = some (.arr batch)

/-- Every event of `batch` is one that was accepted from `d`, with its members in any order. -/
def Known (p : Process) (start : Model) (events : List Event) (d : Device) (batch : List Json) : Prop :=
  ∀ event ∈ batch, ∃ accepted, Accepted p start events d accepted ∧ Reordered accepted event ∧ ¬ Duplicate accepted

/-- In every run: the digests of a device are those of the canonical events in the batches that were
accepted from it, at most `maxEventDigests`, and none is lost. A refused batch changes nothing, a
device changes nothing of the other, and a batch of known events is accepted without a change. -/
theorem upload_deduplication (i : Interpreter) (snapshot : Fixture) (tokens : List (Text × Device))
    (events : List Event) :
    let p := i.process
    let start := Model.initial snapshot tokens
    let m := start.after p events
    (∀ d, (m.eventDigests d).card ≤ maxEventDigests ∧
      (∀ event, Accepted p start events d event → ∃ raw, p.codec.canonical event = .ok raw) ∧
      ∀ digest, digest ∈ m.eventDigests d ↔ ∃ event raw, Accepted p start events d event ∧
        p.codec.canonical event = .ok raw ∧ digest = p.codec.sha256 raw) ∧
    (∀ earlier, earlier <:+ events → ∀ d, (start.after p earlier).eventDigests d ⊆ m.eventDigests d) ∧
    ∀ r, (∀ d, d ≠ r.device → (m.handle p r).1.eventDigests d = m.eventDigests d) ∧
      (r.stage = .eventupload → (∀ reply, (m.handle p r).2 = .ok reply → reply.status ≠ 200) →
        (m.handle p r).1 = m) ∧
      ∀ batch, Uploads m r batch → 1 ≤ batch.length → batch.length ≤ maxEvents →
        Known p start events r.device batch → m.handle p r = (m, .ok (.bare 200)) := by
  intro p start m
  have hcard (d : Device) : (m.eventDigests d).card ≤ maxEventDigests :=
    after_card (Finset.card_empty.trans_le (Nat.zero_le _)) events
  have hexact (d : Device) (digest : Text) : digest ∈ m.eventDigests d ↔
      ∃ event raw, Accepted p start events d event ∧ p.codec.canonical event = .ok raw ∧ digest = p.codec.sha256 raw :=
    (mem_after events).trans (or_iff_right (Finset.notMem_empty digest))
  refine ⟨?_, ?_, ?_⟩
  · intro d
    refine ⟨hcard d, ?_, hexact d⟩
    rintro event ⟨step, earlier, -, huploaded⟩
    exact huploaded.sound.2
  · rintro earlier ⟨later, rfl⟩ d
    exact after_mono later earlier
  · intro r
    refine ⟨fun d hd => handle_frame hd, ?_, ?_⟩
    · intro hstage hrefused
      rcases upload_cases (m := m) (p := p) hstage with ⟨hkept, -⟩ | ⟨batch, digests, combined, -, -, -, -, hhandle⟩
      · exact hkept
      · exact absurd rfl (hrefused (.bare 200) (by rw [hhandle]))
    · intro batch hr hlow hhigh hknown
      obtain ⟨session, hsession, hlive⟩ := hr.live
      have hevent (event : Json) (hevent : event ∈ batch) : eventShape event = true ∧
          ∃ raw, p.codec.canonical event = .ok raw ∧ p.codec.sha256 raw ∈ m.eventDigests r.device := by
        obtain ⟨accepted, haccepted, hreordered, hunique⟩ := hknown event hevent
        obtain ⟨step, earlier, hsuffix, huploaded⟩ := haccepted
        obtain ⟨hshape, raw, hraw⟩ := huploaded.sound
        have hmem := (hexact r.device _).mpr ⟨accepted, raw, ⟨step, earlier, hsuffix, huploaded⟩, hraw, rfl⟩
        exact ⟨eventShape_reordered hreordered hunique hshape, raw,
          (canonical_reordered i hreordered hunique).trans hraw, hmem⟩
      have hbatch : uploadEvents r.body = some batch := uploadEvents_eq_some.mpr
        ⟨hr.events, hlow, hhigh, List.all_eq_true.mpr fun event h => (hevent event h).1⟩
      obtain ⟨digests, hdigests⟩ : ∃ digests, eventDigests p.codec batch = .ok digests := by
        apply mapM_total
        intro event h
        obtain ⟨-, raw, hraw, -⟩ := hevent event h
        exact ⟨_, digest_eq_ok.mpr ⟨raw, hraw, rfl⟩⟩
      apply upload_known hr.named hsession hlive hr.stage hbatch hdigests _ (hcard r.device)
      intro digest hdigest
      obtain ⟨event, raw, h, hraw, rfl⟩ := (mem_digests hdigests).mp hdigest
      obtain ⟨-, raw', hraw', hmem⟩ := hevent event h
      obtain rfl := Except.ok.inj (hraw.symm.trans hraw')
      exact hmem

def sampleEvent : Json :=
  .obj [(text "file_sha256", .str (List.replicate 64 97)), (text "decision", .str (text "BLOCK_BINARY"))]

def sampleUploads (batch : List Json) : Request :=
  sampleRequest .eventupload .a [(text "events", .arr batch)] 2

/-- Device a uploads one event in a live session. -/
def sampleUploaded : List Event :=
  [.request (sampleUploads [sampleEvent]), .request (sampleRequest .preflight .a [] 1)]

theorem sample_accepted :
    Accepted sampleInterpreter.process (Model.initial sampleFixture []) sampleUploaded .a sampleEvent := by
  have hstatus : ((((Model.initial sampleFixture []).after sampleInterpreter.process sampleUploaded.tail).handle
      sampleInterpreter.process (sampleUploads [sampleEvent])).2).toOption.map Reply.status = some 200 := by
    decide +kernel
  obtain ⟨reply, hreply, hstatus⟩ := Option.map_eq_some_iff.mp hstatus
  exact ⟨_, _, List.suffix_refl _, rfl, rfl, ⟨reply, toOption_eq_some.mp hreply, hstatus⟩, [sampleEvent], rfl,
    List.mem_singleton_self _⟩

theorem sampleEvent_unique : ¬ Duplicate sampleEvent := by
  rw [sampleEvent, not_duplicate_obj]
  constructor
  · decide
  · intro m hm
    simp only [List.mem_cons, List.not_mem_nil, or_false] at hm
    rcases hm with rfl | rfl <;> exact not_duplicate_scalar rfl

theorem sample_uploads (batch : List Json) :
    Uploads ((Model.initial sampleFixture []).after sampleInterpreter.process sampleUploaded) (sampleUploads batch)
      batch := by
  have hlive : ((((Model.initial sampleFixture []).after sampleInterpreter.process sampleUploaded).sessions
      .a).any fun session => session.live 0) = true := by
    decide +kernel
  obtain ⟨session, hsession, hlive⟩ := (Option.any_eq_true _ _).mp hlive
  exact ⟨rfl, rfl, ⟨session, hsession, hlive⟩, rfl⟩

/-- The event with its members the other way round is known. -/
theorem upload_deduplication_sample :
    let p := sampleInterpreter.process
    let m := (Model.initial sampleFixture []).after p sampleUploaded
    let event := Json.obj [(text "decision", .str (text "BLOCK_BINARY")), (text "file_sha256", .str (List.replicate 64 97))]
    m.handle p (sampleUploads [event, sampleEvent]) = (m, .ok (.bare 200)) := by
  intro p m event
  apply ((upload_deduplication sampleInterpreter sampleFixture [] sampleUploaded).2.2 _).2.2 [event, sampleEvent]
    (sample_uploads _) (by decide) (by decide)
  intro e he
  have hreordered : Reordered sampleEvent e := by
    simp only [List.mem_cons, List.not_mem_nil, or_false] at he
    rcases he with rfl | rfl
    · exact .members (List.Perm.swap _ _ _)
    · exact .refl _
  exact ⟨sampleEvent, sample_accepted, hreordered, sampleEvent_unique⟩

/-- More than `maxEvents` events are refused, also when they are one known event. -/
theorem repeated_refused :
    let p := sampleInterpreter.process
    let start := Model.initial sampleFixture []
    let m := start.after p sampleUploaded
    let batch := List.replicate 51 sampleEvent
    Uploads m (sampleUploads batch) batch ∧ Known p start sampleUploaded .a batch ∧
      m.handle p (sampleUploads batch) = (m, .ok (.bare 400)) := by
  intro p start m batch
  have huploads := sample_uploads batch
  refine ⟨huploads, ?_, ?_⟩
  · intro e he
    obtain rfl := List.eq_of_mem_replicate he
    exact ⟨sampleEvent, sample_accepted, .refl _, sampleEvent_unique⟩
  · obtain ⟨session, hsession, hlive⟩ := huploads.live
    have hnone : uploadEvents (sampleUploads batch).body = none := by
      rw [Option.eq_none_iff_forall_ne_some]
      intro events hevents
      obtain ⟨hbody, -, hsize, -⟩ := uploadEvents_eq_some.mp hevents
      obtain rfl := Json.arr.inj (Option.some.inj (huploads.events.symm.trans hbody))
      rw [List.length_replicate] at hsize
      exact absurd hsize (by decide)
    rw [handle_eventupload huploads.named hsession hlive huploads.stage, Model.eventupload, hnone]

end Sync
