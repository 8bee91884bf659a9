import AzdSanta.Sync.Cursors

/-! Paging: while a session is kept, its cursors lead through every rule of the pinned snapshot. -/
namespace Sync
open Checks Python

/-- A postflight that is answered 200. -/
def Acknowledges (p : Process) (m : Model) (r : Request) : Prop :=
  r.stage = .postflight ∧ (m.handle p r).2 = .ok (.bare 200)

/-- The session of `device` is neither expired, revoked nor acknowledged in `events`, newest first,
which come after `start`. -/
def Kept (p : Process) (start : Model) (device : Device) (expires : ℚ) : List Event → Prop
  | [] => True
  | event :: events => Kept p start device expires events ∧
    match event with
    | .request r => r.device = device → r.now < expires ∧ ¬ Acknowledges p (start.after p events) r
    | .replace _ => True
    | .revoke d => d ≠ device
    | .rotate d _ => d ≠ device

/-- A `ruledownload` of `device` that presents `c`; no cursor counts as the empty one. -/
structure Asks (r : Request) (device : Device) (c : Text) : Prop where
  stage : r.stage = .ruledownload
  device_eq : r.device = device
  named : r.named = true
  cursor : r.body.get "cursor" = some (.str c) ∨ (c = [] ∧ r.body.get "cursor" = none)

/-- The reply with one rule and the next cursor. -/
def page (rule : Json) (next : Text) : Reply :=
  ⟨200, [(text "rules", .arr [rule]), (text "cursor", .str next)]⟩

/-- `device` got the page at `k` in `events`. -/
def Served (p : Process) (start : Model) (device : Device) (rules : List Json) (chain : ℕ → Text)
    (events : List Event) (k : ℕ) : Prop :=
  ∃ r earlier rule, .request r :: earlier <:+ events ∧ r.device = device ∧ r.stage = .ruledownload ∧
    rules[k]? = some rule ∧ ((start.after p earlier).handle p r).2 = .ok (page rule (chain (k + 1)))

/-- The cursor of the page at `k`, empty for the first page and behind the last. -/
def chainCursor (p : Process) (device : Device) (session : Session) (k : ℕ) : Text :=
  if 0 < k ∧ k < session.snapshot.rules.length then (cursor p device session k).toOption.getD [] else []

section Stages
variable {p : Process} {m : Model} {request : Request} {session : Session} (hnamed : request.named = true)
  (hsession : m.sessions request.device = some session) (hlive : session.live request.now = true)
include hnamed hsession hlive

theorem handle_ruledownload (hstage : request.stage = .ruledownload) :
    m.handle p request = m.ruledownload p session request := by
  simp [Model.handle, hnamed, hstage, hsession, hlive]

theorem handle_postflight (hstage : request.stage = .postflight) :
    m.handle p request = m.postflight session request := by
  simp [Model.handle, hnamed, hstage, hsession, hlive]

end Stages

theorem served_cons {p : Process} {start : Model} {device : Device} {rules : List Json} {chain : ℕ → Text}
    {event : Event} {events : List Event} {k : ℕ} :
    Served p start device rules chain (event :: events) k ↔ Served p start device rules chain events k ∨
      ∃ r rule, event = .request r ∧ r.device = device ∧ r.stage = .ruledownload ∧ rules[k]? = some rule ∧
        ((start.after p events).handle p r).2 = .ok (page rule (chain (k + 1))) := by
  constructor
  · rintro ⟨r, earlier, rule, hsuffix, h⟩
    rcases List.suffix_cons_iff.mp hsuffix with heq | hsuffix
    · obtain ⟨rfl, rfl⟩ := List.cons.inj heq
      exact Or.inr ⟨r, rule, rfl, h⟩
    · exact Or.inl ⟨r, earlier, rule, hsuffix, h⟩
  · rintro (⟨r, earlier, rule, hsuffix, h⟩ | ⟨r, rule, rfl, h⟩)
    · exact ⟨r, earlier, rule, hsuffix.trans (List.suffix_cons _ _), h⟩
    · exact ⟨r, events, rule, List.suffix_refl _, h⟩

section Session
variable {i : Interpreter} {device : Device} {session : Session} {rules : List Json}

/-- What a pinned session has, besides the pages it served. -/
structure Pageable (i : Interpreter) (session : Session) (rules : List Json) : Prop where
  id : IdText session.id
  low : 0 ≤ session.snapshot.revision
  high : session.snapshot.revision < 2 ^ 63
  size : session.snapshot.rules.length < 2 ^ 63
  loads : List.Forall₂ (fun raw rule => i.process.codec.loads (.bytes raw) = .ok rule)
    session.snapshot.rules rules
  acked : session.acked = false

variable (hs : Pageable i session rules)
include hs

theorem Pageable.length : rules.length = session.snapshot.rules.length := hs.loads.length_eq.symm

theorem chainCursor_spec {k : ℕ} (hk : 0 < k) (hk' : k < rules.length) :
    cursor i.process device session k = .ok (chainCursor i.process device session k) ∧
      chainCursor i.process device session k ≠ [] ∧
      offset i.process (chainCursor i.process device session k) device session = .ok k := by
  rw [hs.length] at hk'
  obtain ⟨c, hc, hne, hoffset⟩ := cursor_round_trip i device hs.id hs.low hs.high hs.size hk hk'
  have hchain : chainCursor i.process device session k = c := by
    rw [chainCursor, if_pos ⟨hk, hk'⟩, hc]
    rfl
  rw [hchain]
  exact ⟨hc, hne, hoffset⟩

theorem chainCursor_last : chainCursor i.process device session rules.length = [] := by
  rw [chainCursor, if_neg]
  rw [hs.length]
  omega

/-- Different pages carry different cursors. -/
theorem chainCursor_injective {j k : ℕ} (hj : j < rules.length) (hk : k < rules.length)
    (h : chainCursor i.process device session (j + 1) = chainCursor i.process device session (k + 1)) :
    j = k := by
  by_cases hj' : j + 1 < rules.length
  · by_cases hk' : k + 1 < rules.length
    · have hoffset := (@chainCursor_spec _ device _ _ hs _ (Nat.succ_pos j) hj').2.2
      rw [h, (@chainCursor_spec _ device _ _ hs _ (Nat.succ_pos k) hk').2.2] at hoffset
      have := Except.ok.inj hoffset
      omega
    · have hlast : k + 1 = rules.length := by omega
      rw [hlast, chainCursor_last hs] at h
      exact absurd h (chainCursor_spec hs (Nat.succ_pos j) hj').2.1
  · have hlast : j + 1 = rules.length := by omega
    by_cases hk' : k + 1 < rules.length
    · rw [hlast, chainCursor_last hs] at h
      exact absurd h.symm (chainCursor_spec hs (Nat.succ_pos k) hk').2.1
    · omega

theorem nextCursor_eq {k : ℕ} (hk : k < rules.length) :
    nextCursor i.process device session k = .ok (chainCursor i.process device session (k + 1)) := by
  unfold nextCursor
  rw [← hs.length]
  split_ifs with hnext
  · exact (chainCursor_spec hs (Nat.succ_pos k) hnext).1
  · have hlast : k + 1 = rules.length := by omega
    rw [hlast, chainCursor_last hs]
    rfl

theorem rule_at {k : ℕ} {raw : Bytes} (hraw : session.snapshot.rules[k]? = some raw) :
    ∃ rule, rules[k]? = some rule ∧ i.process.codec.loads (.bytes raw) = .ok rule := by
  obtain ⟨hk, hget⟩ := List.getElem?_eq_some_iff.mp hraw
  have hk' : k < rules.length := hs.length ▸ hk
  have hloads := hs.loads.get hk hk'
  simp only [List.get_eq_getElem, hget] at hloads
  exact ⟨rules[k], List.getElem?_eq_getElem hk', hloads⟩

/-- A page reply of the session, whatever was served before. -/
theorem pageReply_eq {k : ℕ} {rule : Json} (hk : k < rules.length) (served : Finset ℕ) :
    pageReply i.process device { session with served := served } k rule =
      .ok (page rule (chainCursor i.process device session (k + 1))) := by
  have hnext : nextCursor i.process device { session with served := served } k =
      .ok (chainCursor i.process device session (k + 1)) := nextCursor_eq hs hk
  rw [pageReply, hnext]
  rfl

theorem page_inj {j k : ℕ} {rule rule' : Json} (hj : j < rules.length) (hk : k < rules.length)
    (h : page rule (chainCursor i.process device session (j + 1)) =
      page rule' (chainCursor i.process device session (k + 1))) : j = k := by
  simp only [page, Reply.mk.injEq, List.cons.injEq, Prod.mk.injEq, Json.str.injEq] at h
  exact chainCursor_injective hs hj hk h.2.2.1.2

/-- One request of the device in its session. -/
theorem Handled.session_kept {m m' : Model} {r : Request} {outcome : Except Failure Reply}
    {served : Finset ℕ} (h : Handled i.process m r m' outcome)
    (hsession : m.sessions r.device = some { session with served := served })
    (hlive : r.now < session.expires) (hopen : ¬ (r.stage = .postflight ∧ outcome = .ok (.bare 200))) :
    ∃ served', m'.sessions r.device = some { session with served := served' } ∧
      ∀ k, k ∈ served' ↔ k ∈ served ∨ r.stage = .ruledownload ∧ ∃ rule, rules[k]? = some rule ∧
        outcome = .ok (page rule (chainCursor i.process r.device session (k + 1))) := by
  have hother (hne : r.stage ≠ .ruledownload) (k : ℕ) : k ∈ served ↔ k ∈ served ∨
      r.stage = .ruledownload ∧ ∃ rule, rules[k]? = some rule ∧
        outcome = .ok (page rule (chainCursor i.process r.device session (k + 1))) := by
    simp [hne]
  cases h with
  | refused _ hrefused =>
    refine ⟨served, hsession, fun k => ⟨Or.inl, ?_⟩⟩
    rintro (hk | ⟨-, rule, -, hpage⟩)
    · exact hk
    · exact absurd rfl (hrefused _ hpage).1
  | kept _ hstage => exact ⟨served, hsession, hother (by simp [hstage])⟩
  | pinned hstage hpins =>
    simp only [Model.pins, hsession, Session.live, hlive, decide_true, hs.acked, Bool.not_true,
      Bool.or_self] at hpins
    cases hpins
  | uploaded _ hstage => exact ⟨served, hsession, hother (by simp [hstage])⟩
  | served own k raw rule hstage hown _ _ hraw hrule =>
    rw [hsession] at hown
    obtain rfl := Option.some.inj hown
    obtain ⟨rule', hrule', hloads⟩ := rule_at hs hraw
    obtain rfl : rule = rule' := Except.ok.inj (hrule.symm.trans hloads)
    have hk : k < rules.length := (List.getElem?_eq_some_iff.mp hrule').1
    refine ⟨insert k served, by simp, fun j => ?_⟩
    rw [pageReply_eq hs hk, Finset.mem_insert]
    constructor
    · rintro (rfl | hj)
      · exact Or.inr ⟨hstage, rule, hrule', rfl⟩
      · exact Or.inl hj
    · rintro (hj | ⟨-, other, hother, hpage⟩)
      · exact Or.inr hj
      · have hj : j < rules.length := (List.getElem?_eq_some_iff.mp hother).1
        exact Or.inl (page_inj hs hk hj (Except.ok.inj hpage)).symm
  | acknowledged _ hstage => exact absurd ⟨hstage, rfl⟩ hopen

/-- In every kept run the session stays, with the pages that it served. -/
theorem session_kept {start : Model} (hstart : start.sessions device = some session)
    (hempty : session.served = ∅) {events : List Event}
    (h : Kept i.process start device session.expires events) :
    ∃ served, (start.after i.process events).sessions device = some { session with served := served } ∧
      ∀ k, k ∈ served ↔
        Served i.process start device rules (chainCursor i.process device session) events k := by
  induction events with
  | nil =>
    refine ⟨∅, ?_, fun k => ?_⟩
    · rw [← hempty]
      exact hstart
    · simp [Served]
  | cons event events ih =>
    obtain ⟨hkept, hevent⟩ := h
    obtain ⟨served, hsession, hserved⟩ := ih hkept
    -- Only a request of the device itself can serve a page.
    have hquiet (hother : ∀ r, event = .request r → r.device ≠ device) (k : ℕ) : k ∈ served ↔
        Served i.process start device rules (chainCursor i.process device session) (event :: events) k := by
      rw [served_cons, hserved]
      refine ⟨Or.inl, ?_⟩
      rintro (hk | ⟨r, rule, hr, hdevice, -⟩)
      · exact hk
      · exact absurd hdevice (hother r hr)
    cases event with
    | request r =>
      have hstep := handle_handled i.process (start.after i.process events) r
      by_cases hdevice : r.device = device
      · subst hdevice
        obtain ⟨hlive, hopen⟩ := hevent rfl
        obtain ⟨served', hsession', hserved'⟩ := hstep.session_kept hs hsession hlive hopen
        refine ⟨served', hsession', fun k => ?_⟩
        rw [hserved', served_cons, hserved]
        constructor
        · rintro (hk | ⟨hstage, rule, hrule, hpage⟩)
          · exact Or.inl hk
          · exact Or.inr ⟨r, rule, rfl, rfl, hstage, hrule, hpage⟩
        · rintro (hk | ⟨r', rule, hr, -, hstage, hrule, hpage⟩)
          · exact Or.inl hk
          · obtain rfl := Event.request.inj hr
            exact Or.inr ⟨hstage, rule, hrule, hpage⟩
      · refine ⟨served, ?_, hquiet fun r' hr => ?_⟩
        · exact (hstep.frame (Ne.symm hdevice)).trans hsession
        · obtain rfl := Event.request.inj hr
          exact hdevice
    | replace snapshot => exact ⟨served, hsession, hquiet (by rintro r ⟨⟩)⟩
    | revoke d =>
      refine ⟨served, ?_, hquiet (by rintro r ⟨⟩)⟩
      rw [Model.after, Model.step, revoke_sessions, if_neg (Ne.symm hevent), hsession]
    | rotate d token =>
      refine ⟨served, ?_, hquiet (by rintro r ⟨⟩)⟩
      rw [Model.after, Model.step, rotate_sessions, if_neg (Ne.symm hevent), hsession]

/-- The reply to a cursor of the chain. -/
theorem chain_reply {m : Model} {served : Finset ℕ} {k : ℕ} {rule : Json} {r : Request}
    (hsession : m.sessions device = some { session with served := served }) (hrule : rules[k]? = some rule)
    (hasks : Asks r device (chainCursor i.process device session k)) (hlive : r.now < session.expires) :
    (m.handle i.process r).2 = .ok (page rule (chainCursor i.process device session (k + 1))) := by
  have hk : k < rules.length := (List.getElem?_eq_some_iff.mp hrule).1
  have hoffset : pageOffset i.process { session with served := served } r = .ok k := by
    obtain ⟨-, rfl, -, hcursor⟩ := hasks
    rcases Nat.eq_zero_or_pos k with rfl | hpos
    · rcases hcursor with hcursor | ⟨-, hcursor⟩
      · rw [pageOffset, hcursor]
        rfl
      · rw [pageOffset, hcursor]
        rfl
    · obtain ⟨-, hne, hread⟩ := @chainCursor_spec _ r.device _ _ hs _ hpos hk
      rcases hcursor with hcursor | ⟨hempty, -⟩
      · rw [pageOffset, hcursor]
        cases hc : chainCursor i.process r.device session k with
        | nil => exact absurd hc hne
        | cons c cs =>
          rw [hc] at hread
          exact hread
      · exact absurd hempty hne
  have hk' : k < session.snapshot.rules.length := hs.length ▸ hk
  obtain ⟨rule', hrule', hloads⟩ := rule_at hs (List.getElem?_eq_getElem hk')
  obtain rfl : rule = rule' := Option.some.inj (hrule.symm.trans hrule')
  obtain ⟨hstage, rfl, hnamed, -⟩ := hasks
  rw [handle_ruledownload hnamed hsession (decide_eq_true hlive) hstage, Model.ruledownload, hoffset]
  simp only [List.getElem?_eq_getElem hk', hloads]
  exact pageReply_eq hs hk served

/-- Every page that is served is one of the chain. -/
theorem page_of_reply {m : Model} {served : Finset ℕ} {r : Request} {reply : Reply}
    (hsession : m.sessions r.device = some { session with served := served })
    (hstage : r.stage = .ruledownload) (hreply : (m.handle i.process r).2 = .ok reply)
    (hstatus : reply.status = 200) :
    ∃ k rule, rules[k]? = some rule ∧
      reply = page rule (chainCursor i.process r.device session (k + 1)) := by
  have hstep := handle_handled i.process m r
  generalize (m.handle i.process r).1 = m' at hstep
  generalize (m.handle i.process r).2 = outcome at hstep hreply
  cases hstep with
  | refused _ hrefused => exact absurd hstatus (hrefused _ hreply).1
  | kept _ hother | pinned hother | uploaded _ hother | acknowledged _ hother =>
    rw [hstage] at hother
    cases hother
  | served own k raw rule _ hown _ _ hraw hrule =>
    rw [hsession] at hown
    obtain rfl := Option.some.inj hown
    obtain ⟨rule', hrule', hloads⟩ := rule_at hs hraw
    obtain rfl : rule = rule' := Except.ok.inj (hrule.symm.trans hloads)
    have hk : k < rules.length := (List.getElem?_eq_some_iff.mp hrule').1
    rw [pageReply_eq hs hk] at hreply
    exact ⟨k, rule, hrule', (Except.ok.inj hreply).symm⟩

end Session

/-- A postflight that reports `n` rules of a clean sync. -/
structure Reports (r : Request) (device : Device) (n : ℕ) : Prop where
  stage : r.stage = .postflight
  device_eq : r.device = device
  named : r.named = true
  received : r.body.get "rules_received" = some (.int n)
  processed : r.body.get "rules_processed" = some (.int n)
  sync : r.body.get "syncType" = some (.str (text "CLEAN"))

/-- What an accepted preflight that keeps no session leaves behind. -/
theorem Handled.pinned_session {p : Process} {m m' : Model} {pin : Request}
    {outcome : Except Failure Reply} (h : Handled p m pin m' outcome) (hstage : pin.stage = .preflight)
    (hpins : m.pins pin.device pin.now = true) (hreply : outcome = .ok preflightReply) :
    m'.sessions pin.device = some (pinnedSession m pin) ∧
      m.acknowledged pin.device ≤ m.snapshot.revision := by
  cases h with
  | refused _ hrefused => exact absurd rfl (hrefused _ hreply).1
  | kept session _ hsession hlive hopen => simp [Model.pins, hsession, hlive, hopen] at hpins
  | pinned _ _ _ hrevision => exact ⟨by simp, hrevision⟩
  | uploaded _ hother | served _ _ _ _ hother | acknowledged _ hother =>
    rw [hstage] at hother
    cases hother

/-- A report is accepted exactly when the pages of the session are complete. -/
theorem handle_report {p : Process} {m : Model} {session : Session} {r : Request} {device : Device} {n : ℕ}
    (hr : Reports r device n) (hsession : m.sessions device = some session)
    (hlive : r.now < session.expires) (hn : n = session.snapshot.rules.length) :
    ((m.handle p r).2 = .ok (.bare 200) ↔ session.served = Finset.range n) ∧
      (session.served ≠ Finset.range n → m.handle p r = (m, .ok (.bare 409))) := by
  obtain ⟨hstage, rfl, hnamed, hreceived, hprocessed, hsync⟩ := hr
  subst hn
  rw [handle_postflight hnamed hsession (decide_eq_true hlive) hstage]
  have hcount : isCount session.snapshot.rules.length (some (.int session.snapshot.rules.length)) = true := by
    simp [isCount]
  have hclean : (some (Json.str (text "CLEAN"))).any (fun value => value.isOneOf [text "CLEAN"]) = true := by
    simp [Json.isOneOf]
  simp only [Model.postflight, hreceived, hprocessed, hsync, hcount, hclean, and_true, true_and]
  split_ifs with hserved
  · exact ⟨⟨fun _ => hserved, fun _ => rfl⟩, fun hne => absurd hserved hne⟩
  · refine ⟨⟨fun h => ?_, fun h => absurd h hserved⟩, fun _ => rfl⟩
    exact absurd (congrArg Reply.status (Except.ok.inj h)) (by simp [Reply.bare])

def sampleInterpreter : Interpreter where
  spare := 3
  float literal := literal
  sha256 _ := []
  floatEquals _ _ := false
  mac payload := List.replicate 32 (.ofNat payload.length)
  mac_size _ := List.length_replicate

/-- A rule as `canonical` writes it. -/
def sampleRule (identifier : String) : Bytes :=
  (text ("\x7b\"identifier\":\"" ++ identifier ++
    "\",\"policy\":\"BLOCKLIST\",\"rule_type\":\"BINARY\"\x7d")).map UInt8.ofNat

def sampleRuleValue (identifier : String) : Json :=
  .obj [(text "identifier", .str (text identifier)), (text "policy", .str (text "BLOCKLIST")),
    (text "rule_type", .str (text "BINARY"))]

def sampleFixture : Fixture where
  revision := 7
  rules := [sampleRule "one", sampleRule "two"]
  approval := .str (text "synthetic-only")

def sampleRequest (stage : Stage) (device : Device) (members : Dict) (seed : UInt8) : Request where
  stage := stage
  device := device
  body := (text "machine_id", .str device.name) :: members
  now := 0
  stamp := 0
  id := ⟨List.replicate 16 seed, List.length_replicate⟩

end Sync
