import AzdSanta.Sync.Model

/-! Runs of a `Model`: what one request can do, and that devices never go back behind the revision
they acknowledged. -/
namespace Sync
open Checks Python

/-- The reply to an accepted preflight. -/
def preflightReply : Reply := ⟨200, [(text "clientMode", .str (text "MONITOR")),
  (text "syncType", .str (text "CLEAN")), (text "batchSize", .int maxEvents)]⟩

/-- The session that a preflight pins. -/
def pinnedSession (m : Model) (request : Request) : Session :=
  ⟨request.id.hex, m.snapshot, request.stamp + 300, ∅, false⟩

/-- The reply to a `ruledownload` at `offset`. -/
def pageReply (p : Process) (device : Device) (session : Session) (offset : ℕ) (rule : Json) :
    Except Failure Reply := do
  let next ← nextCursor p device session offset
  return ⟨200, [(text "rules", .arr [rule]), (text "cursor", .str next)]⟩

/-- What a request can do to a model. -/
inductive Handled (p : Process) (m : Model) (request : Request) : Model → Except Failure Reply → Prop
  | refused (outcome : Except Failure Reply)
      (hrefused : ∀ reply, outcome = .ok reply → reply.status ≠ 200 ∧ reply.body = [])
      (hempty : ∀ reply, outcome = .ok reply → reply.status = 503 → request.stage = .preflight ∧
        (m.snapshot.rules = [] ∨ ¬ m.snapshot.approval.truthy)) :
      Handled p m request m outcome
  | kept (session : Session) (hstage : request.stage = .preflight)
      (hsession : m.sessions request.device = some session) (hlive : session.live request.now = true)
      (hopen : session.acked = false) :
      Handled p m request m (.ok preflightReply)
  | pinned (hstage : request.stage = .preflight) (hpins : m.pins request.device request.now = true)
      (hrules : m.snapshot.rules ≠ []) (hrevision : m.acknowledged request.device ≤ m.snapshot.revision) :
      Handled p m request (m.setSession request.device (some (pinnedSession m request)))
        (.ok preflightReply)
  | uploaded (digests : Finset Text) (hstage : request.stage = .eventupload) :
      Handled p m request
        { m with eventDigests := Function.update m.eventDigests request.device digests } (.ok (.bare 200))
  | served (session : Session) (offset : ℕ) (raw : Bytes) (rule : Json)
      (hstage : request.stage = .ruledownload) (hsession : m.sessions request.device = some session)
      (hlive : session.live request.now = true) (hoffset : pageOffset p session request = .ok offset)
      (hraw : session.snapshot.rules[offset]? = some raw) (hrule : p.codec.loads (.bytes raw) = .ok rule) :
      Handled p m request
        (m.setSession request.device (some { session with served := insert offset session.served }))
        (pageReply p request.device session offset rule)
  | acknowledged (session : Session) (hstage : request.stage = .postflight)
      (hsession : m.sessions request.device = some session) (hlive : session.live request.now = true)
      (hserved : session.served = Finset.range session.snapshot.rules.length) :
      Handled p m request
        ({ m with acknowledged :=
            Function.update m.acknowledged request.device session.snapshot.revision }.setSession
          request.device (some { session with acked := true })) (.ok (.bare 200))

section Handle
variable {p : Process} {m : Model} {request : Request}

theorem Handled.bare {status : ℕ} (h : status ≠ 200) (h' : status ≠ 503) :
    Handled p m request m (.ok (.bare status)) := by
  apply Handled.refused
  · rintro reply ⟨rfl⟩
    exact ⟨h, rfl⟩
  · rintro reply ⟨rfl⟩ hstatus
    exact absurd hstatus h'

theorem Handled.raised (failure : Failure) : Handled p m request m (.error failure) := by
  apply Handled.refused
  · rintro reply ⟨⟩
  · rintro reply ⟨⟩

theorem preflight_handled (hstage : request.stage = .preflight) :
    Handled p m request (m.preflight request).1 (m.preflight request).2 := by
  unfold Model.preflight
  split_ifs with hempty hrevision hpins
  · apply Handled.refused
    · rintro reply ⟨rfl⟩
      exact ⟨by norm_num [Reply.bare], rfl⟩
    · rintro reply ⟨rfl⟩ -
      exact ⟨hstage, hempty⟩
  · exact .bare (by norm_num) (by norm_num)
  · rw [not_or] at hempty
    exact .pinned hstage hpins hempty.1 (not_lt.mp hrevision)
  · unfold Model.pins at hpins
    split at hpins
    · next session hsession =>
      simp only [Bool.or_eq_true, Bool.not_eq_true', not_or, Bool.not_eq_false, Bool.not_eq_true] at hpins
      exact .kept session hstage hsession hpins.1 hpins.2
    · exact absurd rfl hpins

theorem eventupload_handled (hstage : request.stage = .eventupload) :
    Handled p m request (m.eventupload p request).1 (m.eventupload p request).2 := by
  unfold Model.eventupload
  split
  · exact .bare (by norm_num) (by norm_num)
  · split
    · exact .raised _
    · dsimp only
      split_ifs
      · exact .bare (by norm_num) (by norm_num)
      · exact .uploaded _ hstage

theorem ruledownload_handled {session : Session} (hstage : request.stage = .ruledownload)
    (hsession : m.sessions request.device = some session) (hlive : session.live request.now = true) :
    Handled p m request (m.ruledownload p session request).1 (m.ruledownload p session request).2 := by
  unfold Model.ruledownload
  split
  · exact .bare (by norm_num) (by norm_num)
  · exact .raised _
  · next offset hoffset =>
    split
    · exact .raised _
    · next raw hraw =>
      split
      · exact .raised _
      · next rule hrule => exact .served session offset raw rule hstage hsession hlive hoffset hraw hrule

theorem postflight_handled {session : Session} (hstage : request.stage = .postflight)
    (hsession : m.sessions request.device = some session) (hlive : session.live request.now = true) :
    Handled p m request (m.postflight session request).1 (m.postflight session request).2 := by
  unfold Model.postflight
  dsimp only
  split_ifs with hcounts
  · exact .acknowledged session hstage hsession hlive hcounts.2.2.1
  · exact .bare (by norm_num) (by norm_num)

theorem handle_handled (p : Process) (m : Model) (request : Request) :
    Handled p m request (m.handle p request).1 (m.handle p request).2 := by
  unfold Model.handle
  split_ifs with hnamed hpreflight
  · exact preflight_handled hpreflight
  · split
    · exact .bare (by norm_num) (by norm_num)
    · next session hsession =>
      split_ifs with hlive
      · split
        · next hstage => exact eventupload_handled hstage
        · next hstage => exact ruledownload_handled hstage hsession hlive
        · next hstage => exact postflight_handled hstage hsession hlive
        · exact .bare (by norm_num) (by norm_num)
        · exact .bare (by norm_num) (by norm_num)
      · exact .bare (by norm_num) (by norm_num)
  · exact .bare (by norm_num) (by norm_num)

end Handle

/-- The steps of a run. -/
inductive Event where
  | request (r : Request)
  /-- `self.snapshot = snapshot`. -/
  | replace (snapshot : Fixture)
  | revoke (device : Device)
  | rotate (device : Device) (token : Text)

def Model.step (p : Process) (m : Model) : Event → Model
  | .request r => (m.handle p r).1
  | .replace snapshot => { m with snapshot := snapshot }
  | .revoke device => m.revokeFixtureDevice device
  | .rotate device token => m.rotateFixtureDevice device token

/-- The model after `events`, newest first. -/
def Model.after (p : Process) (m : Model) : List Event → Model
  | [] => m
  | event :: events => (Model.after p m events).step p event

section Rollback
variable {p : Process} {m : Model}

@[simp] theorem setSession_sessions (device : Device) (session : Option Session) (d : Device) :
    (m.setSession device session).sessions d = if d = device then session else m.sessions d := by
  simp only [Model.setSession, Function.update_apply]

@[simp] theorem setSession_acknowledged (device : Device) (session : Option Session) :
    (m.setSession device session).acknowledged = m.acknowledged := rfl

@[simp] theorem setSession_snapshot (device : Device) (session : Option Session) :
    (m.setSession device session).snapshot = m.snapshot := rfl

@[simp] theorem revoke_sessions (device d : Device) :
    (m.revokeFixtureDevice device).sessions d = if d = device then none else m.sessions d := by
  simp only [Model.revokeFixtureDevice, setSession_sessions]

@[simp] theorem rotate_sessions (device d : Device) (token : Text) :
    (m.rotateFixtureDevice device token).sessions d = if d = device then none else m.sessions d :=
  revoke_sessions device d

/-- A request leaves the sessions of the other device alone. -/
theorem Handled.frame {m' : Model} {request : Request} {outcome : Except Failure Reply}
    (h : Handled p m request m' outcome) {d : Device} (hd : d ≠ request.device) :
    m'.sessions d = m.sessions d := by
  cases h with
  | refused | kept | uploaded => rfl
  | pinned | served => simp [hd]
  | acknowledged => simp [hd]

/-- No session is behind what its device acknowledged. -/
def Model.Safe (m : Model) : Prop :=
  ∀ d session, m.sessions d = some session → m.acknowledged d ≤ session.snapshot.revision

theorem initial_safe (snapshot : Fixture) (tokens : List (Text × Device)) :
    (Model.initial snapshot tokens).Safe := by
  rintro d session ⟨⟩

/-- Dropping a session keeps the model safe. -/
theorem Model.Safe.drop {m' : Model} {device : Device} (h : m.Safe)
    (hacknowledged : m'.acknowledged = m.acknowledged)
    (hsessions : ∀ d, m'.sessions d = if d = device then none else m.sessions d) : m'.Safe := by
  intro d session hsession
  rw [hsessions] at hsession
  split_ifs at hsession
  rw [hacknowledged]
  exact h d session hsession

/-- So does putting one in its place that is not behind. -/
theorem Model.Safe.set {device : Device} {session : Session} (h : m.Safe)
    (hsession : m.acknowledged device ≤ session.snapshot.revision) :
    (m.setSession device (some session)).Safe := by
  intro d other hother
  rw [setSession_sessions] at hother
  rw [setSession_acknowledged]
  split_ifs at hother with hd
  · obtain rfl := Option.some.inj hother
    exact hd ▸ hsession
  · exact h d other hother

theorem Handled.safe {request : Request} {m' : Model} {outcome : Except Failure Reply}
    (hstep : Handled p m request m' outcome) (h : m.Safe) :
    m'.Safe ∧ ∀ d, m.acknowledged d ≤ m'.acknowledged d := by
  cases hstep with
  | refused => exact ⟨h, fun _ => le_rfl⟩
  | kept => exact ⟨h, fun _ => le_rfl⟩
  | pinned hstage hpins hrules hrevision => exact ⟨h.set hrevision, fun _ => le_rfl⟩
  | uploaded => exact ⟨h, fun _ => le_rfl⟩
  | served session offset raw rule hstage hsession =>
    have hbehind := h _ _ hsession
    exact ⟨h.set hbehind, fun _ => le_rfl⟩
  | acknowledged session hstage hsession =>
    have hbehind := h _ _ hsession
    have hmonotone (d : Device) : m.acknowledged d ≤
        Function.update m.acknowledged request.device session.snapshot.revision d := by
      rw [Function.update_apply]
      split_ifs with hd
      · exact hd ▸ hbehind
      · exact le_rfl
    refine ⟨?_, hmonotone⟩
    intro d other hother
    rw [setSession_sessions] at hother
    simp only [setSession_acknowledged, Function.update_apply]
    split_ifs at hother ⊢ with hd
    · rw [← Option.some.inj hother]
    · exact h d other hother

theorem step_safe (event : Event) (h : m.Safe) :
    (m.step p event).Safe ∧ ∀ d, m.acknowledged d ≤ (m.step p event).acknowledged d := by
  cases event with
  | request r => exact (handle_handled p m r).safe h
  | replace snapshot => exact ⟨h, fun _ => le_rfl⟩
  | revoke device => exact ⟨h.drop rfl (revoke_sessions device), fun _ => le_rfl⟩
  | rotate device token => exact ⟨h.drop rfl fun d => rotate_sessions device d token, fun _ => le_rfl⟩

theorem after_safe (h : m.Safe) (events : List Event) : (m.after p events).Safe := by
  induction events with
  | nil => exact h
  | cons event events ih => exact (step_safe event ih).1

theorem after_acknowledged (h : m.Safe) (later earlier : List Event) (d : Device) :
    (m.after p earlier).acknowledged d ≤ (m.after p (later ++ earlier)).acknowledged d := by
  induction later with
  | nil => exact le_rfl
  | cons event later ih =>
    exact ih.trans ((step_safe event (after_safe h (later ++ earlier))).2 d)

theorem preflightReply_rules : preflightReply.body.get "rules" = none := by
  decide +kernel

/-- A reply with rules is a page of the session. -/
theorem Handled.rules {request : Request} {m' : Model} {outcome : Except Failure Reply} {reply : Reply}
    {rules : Json} (hstep : Handled p m request m' outcome) (hreply : outcome = .ok reply)
    (hrules : reply.body.get "rules" = some rules) :
    ∃ (session : Session) (raw : Bytes) (rule : Json), m.sessions request.device = some session ∧
      raw ∈ session.snapshot.rules ∧ p.codec.loads (.bytes raw) = .ok rule ∧ rules = .arr [rule] := by
  cases hstep with
  | refused _ hrefused =>
    rw [(hrefused reply hreply).2] at hrules
    cases hrules
  | kept =>
    obtain rfl := Except.ok.inj hreply
    rw [preflightReply_rules] at hrules
    cases hrules
  | pinned =>
    obtain rfl := Except.ok.inj hreply
    rw [preflightReply_rules] at hrules
    cases hrules
  | uploaded =>
    obtain rfl := Except.ok.inj hreply
    cases hrules
  | served session offset raw rule hstage hsession hlive hoffset hraw hrule =>
    obtain ⟨next, -, hpage⟩ := bind_eq_ok.mp hreply
    obtain rfl := Except.ok.inj hpage
    refine ⟨session, raw, rule, hsession, List.mem_of_getElem? hraw, hrule, ?_⟩
    simpa [Dict.get] using hrules.symm
  | acknowledged =>
    obtain rfl := Except.ok.inj hreply
    cases hrules

/-- An answered postflight acknowledges the snapshot of the session. -/
theorem Handled.reports {request : Request} {m' : Model} {outcome : Except Failure Reply} {reply : Reply}
    (hstep : Handled p m request m' outcome) (hreply : outcome = .ok reply) (hstatus : reply.status = 200)
    (hstage : request.stage = .postflight) :
    ∃ session, m.sessions request.device = some session ∧
      m'.acknowledged request.device = session.snapshot.revision := by
  cases hstep with
  | refused _ hrefused => exact absurd hstatus (hrefused reply hreply).1
  | kept _ hother => rw [hstage] at hother; cases hother
  | pinned hother => rw [hstage] at hother; cases hother
  | uploaded _ hother => rw [hstage] at hother; cases hother
  | served _ _ _ _ hother => rw [hstage] at hother; cases hother
  | acknowledged session _ hsession =>
    exact ⟨session, hsession, by simp⟩

end Rollback

/-- In every run: what a device acknowledged never decreases, no session is behind it, and a rule
that is served comes from a snapshot at least as new as every one the device reported before. -/
theorem rollback_safety (p : Process) (snapshot : Fixture) (tokens : List (Text × Device))
    (events : List Event) :
    let start := Model.initial snapshot tokens
    let m := start.after p events
    (∀ earlier, earlier <:+ events → ∀ d, (start.after p earlier).acknowledged d ≤ m.acknowledged d) ∧
    (∀ d session, m.sessions d = some session → m.acknowledged d ≤ session.snapshot.revision) ∧
    ∀ request reply rules, (m.handle p request).2 = .ok reply → reply.body.get "rules" = some rules →
      ∃ (session : Session) (raw : Bytes) (rule : Json), m.sessions request.device = some session ∧
        raw ∈ session.snapshot.rules ∧ p.codec.loads (.bytes raw) = .ok rule ∧ rules = .arr [rule] ∧
        m.acknowledged request.device ≤ session.snapshot.revision ∧
        ∀ report earlier answer, .request report :: earlier <:+ events → report.device = request.device →
          report.stage = .postflight → ((start.after p earlier).handle p report).2 = .ok answer →
          answer.status = 200 → ∃ reported, (start.after p earlier).sessions request.device = some reported ∧
            reported.snapshot.revision ≤ session.snapshot.revision := by
  intro start m
  have hsafe : start.Safe := initial_safe snapshot tokens
  have hmonotone (earlier : List Event) (hearlier : earlier <:+ events) (d : Device) :
      (start.after p earlier).acknowledged d ≤ m.acknowledged d := by
    obtain ⟨later, rfl⟩ := hearlier
    exact after_acknowledged hsafe later earlier d
  refine ⟨hmonotone, after_safe hsafe events, fun request reply rules hreply hrules => ?_⟩
  obtain ⟨session, raw, rule, hsession, hraw, hrule, hpage⟩ :=
    (handle_handled p m request).rules hreply hrules
  have hbehind := after_safe hsafe events _ _ hsession
  refine ⟨session, raw, rule, hsession, hraw, hrule, hpage, hbehind, ?_⟩
  intro report earlier answer hearlier hdevice hstage hanswer hstatus
  obtain ⟨reported, hreported, hrevision⟩ :=
    (handle_handled p (start.after p earlier) report).reports hanswer hstatus hstage
  rw [hdevice] at hreported hrevision
  refine ⟨reported, hreported, ?_⟩
  rw [← hrevision]
  exact (hmonotone _ hearlier request.device).trans hbehind

end Sync
