import AzdSanta.Sync.Paging

/-! Cursors open only the session they were issued in. -/
namespace Sync
open Checks Python

/-- A preflight that creates a session. -/
def Creates (p : Process) (m : Model) (r : Request) : Prop :=
  r.stage = .preflight ∧ m.pins r.device r.now = true ∧ (m.handle p r).2 = .ok preflightReply

/-- No two sessions get one id. -/
def FreshIds (p : Process) (start : Model) (events : List Event) : Prop :=
  ∀ r r' earlier earlier', .request r :: earlier <:+ events → Creates p (start.after p earlier) r →
    .request r' :: earlier' <:+ earlier → Creates p (start.after p earlier') r' → r.id.hex ≠ r'.id.hex

/-- `Model.cursor` was called for page `k` of `session`, and its result was sent to `device`. -/
def Issued (p : Process) (start : Model) (events : List Event) (device : Device) (session : Session)
    (k : ℕ) : Prop :=
  ∃ r earlier rule c, .request r :: earlier <:+ events ∧ r.device = device ∧
    (start.after p earlier).sessions device = some session ∧ cursor p device session k = .ok c ∧
    ((start.after p earlier).handle p r).2 = .ok (page rule c)

/-- A MAC under the key is only known for a payload that was issued. -/
def Unforged (p : Process) (start : Model) (events : List Event) (c : Text) : Prop :=
  ∀ payload, Authentic p c payload → ∃ device session k, Issued p start events device session k ∧
    p.codec.canonical (cursorValues device session k) = .ok payload

/-- `c` decodes to a payload issued to `device` for page `k`, under the id and revision of `session`. -/
def Grants (p : Process) (start : Model) (events : List Event) (c : Text) (device : Device)
    (session : Session) (k : ℕ) : Prop :=
  ∃ issued payload, Issued p start events device issued k ∧ issued.id = session.id ∧
    issued.snapshot.revision = session.snapshot.revision ∧
    p.codec.canonical (cursorValues device issued k) = .ok payload ∧ Authentic p c payload

/-- The request is answered 400, or 409 without a live session, and changes nothing. -/
def Refused (p : Process) (m : Model) (r : Request) : Prop :=
  m.handle p r = (m, .ok (.bare (if (m.sessions r.device).any fun s => s.live r.now then 400 else 409)))

/-- The session that `device` had after `earlier` is revoked, rotated away or replaced in `events`. -/
def Ended (p : Process) (start : Model) (device : Device) (earlier events : List Event) : Prop :=
  ∃ event mid, event :: mid <:+ events ∧ earlier <:+ mid ∧
    (event = .revoke device ∨ (∃ token, event = .rotate device token) ∨
      ∃ r, event = .request r ∧ r.device = device ∧ Creates p (start.after p mid) r)

section Lineage
variable {p : Process} {m : Model} {d : Device} {session : Session}

theorem Handled.session_origin {m' : Model} {r : Request} {outcome : Except Failure Reply}
    (h : Handled p m r m' outcome) (hsession : m'.sessions d = some session) :
    (r.device = d ∧ r.stage = .preflight ∧ m.pins r.device r.now = true ∧ outcome = .ok preflightReply ∧
      session = pinnedSession m r) ∨
      ∃ before, m.sessions d = some before ∧ before.id = session.id ∧ before.snapshot = session.snapshot := by
  by_cases hd : d = r.device
  · subst hd
    cases h with
    | refused | kept | uploaded => exact Or.inr ⟨session, hsession, rfl, rfl⟩
    | pinned hstage hpins =>
      rw [setSession_sessions, if_pos rfl] at hsession
      exact Or.inl ⟨rfl, hstage, hpins, rfl, (Option.some.inj hsession).symm⟩
    | served own _ _ _ _ hown =>
      rw [setSession_sessions, if_pos rfl] at hsession
      obtain rfl := Option.some.inj hsession
      exact Or.inr ⟨own, hown, rfl, rfl⟩
    | acknowledged own _ hown =>
      rw [setSession_sessions, if_pos rfl] at hsession
      obtain rfl := Option.some.inj hsession
      exact Or.inr ⟨own, hown, rfl, rfl⟩
  · rw [h.frame hd] at hsession
    exact Or.inr ⟨session, hsession, rfl, rfl⟩

/-- Every session after a step was there before or has just been created. -/
theorem step_session {event : Event} (h : (m.step p event).sessions d = some session) :
    (∃ r, event = .request r ∧ r.device = d ∧ Creates p m r ∧ session = pinnedSession m r) ∨
      ∃ before, m.sessions d = some before ∧ before.id = session.id ∧ before.snapshot = session.snapshot := by
  cases event with
  | request r =>
    rcases (handle_handled p m r).session_origin h with ⟨hd, hstage, hpins, hreply, hsession⟩ | hbefore
    · exact Or.inl ⟨r, rfl, hd, ⟨hstage, hpins, hreply⟩, hsession⟩
    · exact Or.inr hbefore
  | replace snapshot => exact Or.inr ⟨session, h, rfl, rfl⟩
  | revoke device =>
    rw [Model.step, revoke_sessions] at h
    split_ifs at h
    exact Or.inr ⟨session, h, rfl, rfl⟩
  | rotate device token =>
    rw [Model.step, rotate_sessions] at h
    split_ifs at h
    exact Or.inr ⟨session, h, rfl, rfl⟩

/-- Every session was there at an earlier moment or was created since. -/
theorem after_session {later earlier : List Event}
    (h : (m.after p (later ++ earlier)).sessions d = some session) :
    (∃ r mid, .request r :: mid <:+ later ++ earlier ∧ earlier <:+ mid ∧ Creates p (m.after p mid) r ∧
      r.device = d ∧ session.id = r.id.hex) ∨
      ∃ before, (m.after p earlier).sessions d = some before ∧ before.id = session.id ∧
        before.snapshot = session.snapshot := by
  induction later generalizing session with
  | nil => exact Or.inr ⟨session, h, rfl, rfl⟩
  | cons event later ih =>
    rcases step_session h with ⟨r, rfl, hr, hcreates, rfl⟩ | ⟨before, hbefore, hid, hsnapshot⟩
    · exact Or.inl ⟨r, later ++ earlier, List.suffix_refl _, List.suffix_append _ _, hcreates, hr, rfl⟩
    · rcases ih hbefore with ⟨r, mid, hmid, hearlier, hcreates, hr, hid'⟩ | ⟨old, hold, hid', hsnapshot'⟩
      · exact Or.inl ⟨r, mid, hmid.trans (List.suffix_cons _ _), hearlier, hcreates, hr, hid ▸ hid'⟩
      · exact Or.inr ⟨old, hold, hid'.trans hid, hsnapshot'.trans hsnapshot⟩

variable {snapshot : Fixture} {tokens : List (Text × Device)} {events earlier : List Event}

/-- Every session of a run was created in it. -/
theorem session_created (h : ((Model.initial snapshot tokens).after p events).sessions d = some session) :
    ∃ r mid, .request r :: mid <:+ events ∧ Creates p ((Model.initial snapshot tokens).after p mid) r ∧
      r.device = d ∧ session.id = r.id.hex := by
  rw [← List.append_nil events] at h
  rcases after_session h with ⟨r, mid, hmid, -, hcreates, hr, hid⟩ | ⟨before, hbefore, -⟩
  · rw [List.append_nil] at hmid
    exact ⟨r, mid, hmid, hcreates, hr, hid⟩
  · cases hbefore

theorem session_idText (h : ((Model.initial snapshot tokens).after p events).sessions d = some session) :
    IdText session.id := by
  obtain ⟨r, -, -, -, -, hid⟩ := session_created h
  rw [hid]
  exact hex_idText r.id

/-- The id of an ended session does not come back. -/
theorem ended_id {old : Session} (hfresh : FreshIds p (Model.initial snapshot tokens) events)
    (hold : ((Model.initial snapshot tokens).after p earlier).sessions d = some old)
    (hended : Ended p (Model.initial snapshot tokens) d earlier events)
    (h : ((Model.initial snapshot tokens).after p events).sessions d = some session) :
    session.id ≠ old.id := by
  intro heq
  obtain ⟨event, mid, hevent, hearlier, hkind⟩ := hended
  obtain ⟨q, before, hq, hcreated, -, hqid⟩ := session_created hold
  -- A creation after `earlier` has another id than the one that created the old session.
  have hlater (r : Request) (at' : List Event) (hr : .request r :: at' <:+ events) (hat : earlier <:+ at')
      (hcreates : Creates p ((Model.initial snapshot tokens).after p at') r) : session.id ≠ r.id.hex := by
    intro hid
    refine hfresh r q at' before hr hcreates (hq.trans hat) hcreated ?_
    rw [← hid, heq, hqid]
  obtain ⟨later, rfl⟩ := hevent
  rcases after_session h with ⟨r, at', hr, hat, hcreates, -, hid⟩ | ⟨kept, hkept, hid, -⟩
  · exact hlater r at' hr (hearlier.trans ((List.suffix_cons _ _).trans hat)) hcreates hid
  · rw [Model.after] at hkept
    rcases hkind with rfl | ⟨token, rfl⟩ | ⟨r, rfl, hr, hcreates⟩
    · rw [Model.step, revoke_sessions, if_pos rfl] at hkept
      cases hkept
    · rw [Model.step, rotate_sessions, if_pos rfl] at hkept
      cases hkept
    · subst hr
      have hpinned := ((handle_handled p _ r).pinned_session hcreates.1 hcreates.2.1 hcreates.2.2).1
      rw [Model.step, hpinned] at hkept
      obtain rfl := Option.some.inj hkept
      exact hlater r mid (List.suffix_append _ _) hearlier hcreates hid.symm

end Lineage

section Refusals
variable {p : Process} {m : Model} {r : Request} {c : Text}

theorem refused_of_offset (hstage : r.stage = .ruledownload) (hnamed : r.named = true)
    (hcursor : r.body.get "cursor" = some (.str c)) (hc : c ≠ [])
    (h : ∀ session, m.sessions r.device = some session → session.live r.now = true →
      ∃ message, offset p c r.device session = .error (.valueError message)) : Refused p m r := by
  cases hsession : m.sessions r.device with
  | none => simp [Refused, Model.handle, hnamed, hstage, hsession]
  | some session =>
    by_cases hlive : session.live r.now = true
    · obtain ⟨message, hmessage⟩ := h session hsession hlive
      have hpage : pageOffset p session r = .error (.valueError message) := by
        cases c with
        | nil => exact absurd rfl hc
        | cons => rw [pageOffset, hcursor]; exact hmessage
      rw [Refused, handle_ruledownload hnamed hsession hlive hstage, Model.ruledownload, hpage]
      simp [hsession, hlive]
    · simp [Refused, Model.handle, hnamed, hstage, hsession, hlive]

end Refusals

section Payloads
variable {i : Interpreter} {snapshot : Fixture} {tokens : List (Text × Device)} {events : List Event}
  {c : Text} {device device' : Device} {session session' : Session} {k k' : ℕ}

theorem Issued.idText
    (h : Issued i.process (Model.initial snapshot tokens) events device session k) : IdText session.id := by
  obtain ⟨r, earlier, -, -, -, -, hsession, -⟩ := h
  exact session_idText hsession

/-- A payload belongs to one device, session and page. -/
theorem payload_injective {payload : Bytes} (hid : IdText session.id) (hid' : IdText session'.id)
    (h : i.process.codec.canonical (cursorValues device session k) = .ok payload)
    (h' : i.process.codec.canonical (cursorValues device' session' k') = .ok payload) :
    device = device' ∧ session.id = session'.id ∧ k = k' := by
  have hloads : i.process.codec.loads (.bytes payload) = .ok (cursorValues device session k) :=
    loads_payload hid h
  have hloads' : i.process.codec.loads (.bytes payload) = .ok (cursorValues device' session' k') :=
    loads_payload hid' h'
  have heq := Except.ok.inj (hloads.symm.trans hloads')
  simp only [cursorValues, Json.arr.injEq, List.cons.injEq, Json.str.injEq, Json.int.injEq, Nat.cast_inj,
    and_true] at heq
  exact ⟨name_injective heq.1, heq.2.1, heq.2.2.2⟩

/-- `offset` gives a value only to a string that grants it, and else a `ValueError`. -/
theorem offset_grants
    (hunforged : Unforged i.process (Model.initial snapshot tokens) events c) :
    (∃ k, offset i.process c device session = .ok k ∧
      Grants i.process (Model.initial snapshot tokens) events c device session k ∧
      1 ≤ k ∧ k < session.snapshot.rules.length) ∨
    ∃ message, offset i.process c device session = .error (.valueError message) := by
  by_cases hauthentic : ∃ payload, Authentic i.process c payload
  · obtain ⟨payload, hpayload⟩ := hauthentic
    obtain ⟨d, issued, j, hissued, hcanonical⟩ := hunforged payload hpayload
    have hspec := @offset_issued device _ session _ _ _ _ _ hissued.idText hcanonical hpayload
    cases hoffset : offset i.process c device session with
    | error failure =>
      obtain ⟨message, rfl⟩ := hspec.2 failure hoffset
      exact Or.inr ⟨message, rfl⟩
    | ok k =>
      obtain ⟨-, rfl, hid, hrevision, rfl, hlow, hhigh⟩ := (hspec.1 k).mp hoffset
      exact Or.inl ⟨j, rfl, ⟨issued, payload, hissued, hid, hrevision, hcanonical, hpayload⟩, hlow, hhigh⟩
  · exact Or.inr (offset_not_authentic (Or.inr (not_exists.mp hauthentic)))

end Payloads

/-- The session of a preflight of device a. -/
def sampleSession : Session :=
  pinnedSession (.initial sampleFixture []) (sampleRequest .preflight .a [] 1)

end Sync
