import AzdSanta.Sync.Durability
import AzdSanta.Sync.Readable

/-! A `Model` and a `DurableModel` side by side, under the same requests. -/
namespace Sync
open Checks Python Transactions

theorem mac_length (mac : { mac : Bytes → Bytes // ∀ payload, (mac payload).length = 32 }) (payload : Bytes) :
    (mac.1 payload).length = 32 := mac.2 payload

/-- The same interpreter with the key of another process. -/
def Interpreter.rekeyed (i : Interpreter) (mac : { mac : Bytes → Bytes // ∀ payload, (mac payload).length = 32 }) :
    Interpreter :=
  { i with mac := mac.1, mac_size := mac_length mac }

/-- Both models and the file of the durable one. -/
structure Twin where
  tables : Tables
  durable : Model
  plain : Model

inductive Move where
  /-- A request to both; each gets it with its own token and cursor. -/
  | post (plain durable : HttpRequest)
  /-- Another connection publishes. -/
  | publish (snapshot : Option Snapshot)

def noFaults : Faults := ⟨false, false, false⟩

/-- The plain model as it gets a request: in front of a preflight it is given the latest snapshot. -/
def Twin.given (i : Interpreter) (w : Twin) (h : HttpRequest) : Model :=
  match routes.lookup h.path, stateSnapshot i.process w.tables with
  | some (.preflight, _), .ok snapshot => { w.plain with snapshot := snapshot }
  | _, _ => w.plain

section Moves
variable (i j : Interpreter) (g : Gateway)

def Twin.plainAnswer (w : Twin) (h : HttpRequest) : Except Raised Reply := ((w.given i h).doPost i g h).2

def Twin.durableAnswer (w : Twin) (h : HttpRequest) : Except Raised Reply :=
  (durablePost j g w.tables w.durable h noFaults).2.2

/-- A move, with `i` under the plain model and `j` under the durable one. -/
def Twin.step (w : Twin) : Move → Twin
  | .post h h' =>
    let answered := durablePost j g w.tables w.durable h' noFaults
    ⟨answered.1, answered.2.1, ((w.given i h).doPost i g h).1⟩
  | .publish snapshot =>
    match serial (Call.body i.process.codec) (.publishFixture snapshot) w.tables with
    | .ok t => { w with tables := t }
    | .error _ => w

/-- The twin after `moves`, newest first. -/
def Twin.after (w : Twin) : List Move → Twin
  | [] => w
  | move :: moves => (Twin.after w moves).step i j g move

end Moves

/-- What a cursor is taken for, up to the text of a `ValueError`. -/
def SameAsk (a b : Except Failure ℕ) : Prop :=
  a = b ∨ ∃ message message', a = .error (.valueError message) ∧ b = .error (.valueError message')

/-- Requests that differ in their random id and cursor only, the cursor asking each model for the
same page. -/
structure SameRequest (i j : Interpreter) (m m' : Model) (r r' : Request) : Prop where
  stage : r'.stage = r.stage
  device : r'.device = r.device
  now : r'.now = r.now
  stamp : r'.stamp = r.stamp
  body : ∀ key, key ≠ "cursor" → r'.body.get key = r.body.get key
  cursor : ∀ session session', m.sessions r.device = some session → m'.sessions r.device = some session' →
    SameAsk (pageOffset i.process session r) (pageOffset j.process session' r')

/-- Requests that are refused alike in front of the models, or come to them as the same request. -/
inductive Paired (i j : Interpreter) (g : Gateway) (w : Twin) (h h' : HttpRequest) : Prop
  | refused (answer : Except Raised Reply) (hplain : h.admit i g w.plain.tokens = .error answer)
      (hdurable : h'.admit j g w.durable.tokens = .error answer)
  | admitted (r r' : Request) (hplain : h.admit i g w.plain.tokens = .ok r)
      (hdurable : h'.admit j g w.durable.tokens = .ok r') (hsame : SameRequest i j w.plain w.durable r r')

/-- The cursor of a reply blotted out. -/
def blot : Text × Json → Text × Json
  | (key, .str (c :: s)) => if key = text "cursor" then (key, .null) else (key, .str (c :: s))
  | m => m

def Reply.blotted (reply : Reply) : Reply := ⟨reply.status, reply.body.map blot⟩

/-- The same status and body up to cursor bytes. -/
def SameAnswer : Except Raised Reply → Except Raised Reply → Prop
  | .ok reply, .ok reply' => reply.blotted = reply'.blotted
  | .error raised, .error raised' => raised = raised'
  | _, _ => False

/-- `device` has a session that can be used at `now`. -/
def Model.live (m : Model) (device : Device) (now : ℚ) : Bool :=
  (m.sessions device).any fun session => session.live now

/-- An upload of the right shape on a live session, with a number that is not finite. -/
def Overflows (m : Model) (r : Request) : Prop :=
  r.named = true ∧ r.stage = .eventupload ∧ m.live r.device r.now = true ∧
    ∃ events, uploadEvents r.body = some events ∧ ∃ event ∈ events, NonFinite event

/-- Models that hold the same sessions and digests. -/
structure SameModel (m m' : Model) : Prop where
  sessions : ∀ d, (m.sessions d = none ∧ m'.sessions d = none) ∨
    ∃ session id, m.sessions d = some session ∧ m'.sessions d = some { session with id := id }
  digests : m'.eventDigests = m.eventDigests

/-- The same outcome, no failure among those that the durable model catches. -/
def SameOutcome : Except Failure Reply → Except Failure Reply → Prop
  | .ok reply, .ok reply' => reply.blotted = reply'.blotted
  | .error failure, .error failure' => failure = failure' ∧ failure.caught = false
  | _, _ => False

section Same
variable {i : Interpreter} {mac : { mac : Bytes → Bytes // ∀ payload, (mac payload).length = 32 }}
  {m m' : Model} {r r' : Request} {d : Device}

theorem SameModel.set (hm : SameModel m m') (session : Session) (id : Text) :
    SameModel (m.setSession d (some session)) (m'.setSession d (some { session with id := id })) := by
  refine ⟨fun e => ?_, hm.digests⟩
  rw [setSession_sessions, setSession_sessions]
  split_ifs with he
  · exact Or.inr ⟨session, id, rfl, rfl⟩
  · exact hm.sessions e

theorem SameModel.live (hm : SameModel m m') (d : Device) (now : ℚ) : m'.live d now = m.live d now := by
  rcases hm.sessions d with ⟨hnone, hnone'⟩ | ⟨session, id, hsome, hsome'⟩
  · rw [Model.live, Model.live, hnone, hnone']
  · rw [Model.live, Model.live, hsome, hsome']
    rfl

theorem SameModel.pins (hm : SameModel m m') (d : Device) (now : ℚ) : m'.pins d now = m.pins d now := by
  rcases hm.sessions d with ⟨hnone, hnone'⟩ | ⟨session, id, hsome, hsome'⟩
  · rw [Model.pins, Model.pins, hnone, hnone']
  · rw [Model.pins, Model.pins, hsome, hsome']
    rfl

theorem SameRequest.named {j : Interpreter} (hr : SameRequest i j m m' r r') : r'.named = r.named := by
  rw [Request.named, Request.named, hr.device, hr.body "machine_id" (by decide)]

theorem SameOutcome.refl (reply : Reply) : SameOutcome (.ok reply) (.ok reply) := rfl

theorem preflight_same {j : Interpreter} (hm : SameModel m m') (hr : SameRequest i j m m' r r')
    (hsnapshot : m'.snapshot = m.snapshot) (hrevision : m.acknowledged r.device ≤ m.snapshot.revision)
    (hrevision' : m'.acknowledged r.device ≤ m.snapshot.revision) :
    SameModel (m.preflight r).1 (m'.preflight r').1 ∧ SameOutcome (m.preflight r).2 (m'.preflight r').2 := by
  unfold Model.preflight
  rw [hsnapshot, hr.device, hr.now, hr.stamp, hm.pins, if_neg (not_lt.mpr hrevision),
    if_neg (not_lt.mpr hrevision')]
  split_ifs
  · exact ⟨hm, .refl _⟩
  · exact ⟨hm.set ⟨r.id.hex, m.snapshot, r.stamp + 300, ∅, false⟩ r'.id.hex, .refl _⟩
  · exact ⟨hm, .refl _⟩

theorem eventupload_same {j : Interpreter} (hcodec : j.process.codec = i.process.codec) (hm : SameModel m m')
    (hr : SameRequest i j m m' r r')
    (hdigests : ∀ events, uploadEvents r.body = some events →
      ∃ digests, Sync.eventDigests i.process.codec events = .ok digests) :
    SameModel (m.eventupload i.process r).1 (m'.eventupload j.process r').1 ∧
      SameOutcome (m.eventupload i.process r).2 (m'.eventupload j.process r').2 := by
  have hevents : uploadEvents r'.body = uploadEvents r.body := by
    rw [uploadEvents, uploadEvents, hr.body "events" (by decide)]
  unfold Model.eventupload
  rw [hevents, hcodec, hm.digests, hr.device]
  cases hupload : uploadEvents r.body with
  | none => exact ⟨hm, .refl _⟩
  | some events =>
    obtain ⟨digests, hd⟩ := hdigests events hupload
    simp only [hd]
    split_ifs
    · exact ⟨hm, .refl _⟩
    · exact ⟨⟨hm.sessions, rfl⟩, .refl _⟩

theorem ofJson_error {α : Type} {x : Except JsonError α} {failure : Failure} (h : ofJson x = .error failure) :
    (∃ message, failure = .valueError message) ∨ failure = .recursionError := by
  rcases x with (_ | _) | _
  · exact Or.inl ⟨"", (Except.error.inj h).symm⟩
  · exact Or.inr (Except.error.inj h).symm
  · cases h

theorem checkValues_error {p : Process} {session : Session} {values : Json} {failure : Failure}
    (h : checkValues p d session values = .error failure) :
    (∃ message, failure = .valueError message) ∨ failure.caught = false := by
  unfold checkValues at h
  split at h
  · split_ifs at h
    · cases h
    · exact Or.inl ⟨_, (Except.error.inj h).symm⟩
  · exact Or.inr (Except.error.inj h ▸ rfl)
  · exact Or.inl ⟨_, (Except.error.inj h).symm⟩

/-- A cursor that is refused with anything but a `ValueError` is refused by both models alike. -/
theorem pageOffset_error {session : Session} {failure : Failure}
    (h : pageOffset i.process session r = .error failure) :
    (∃ message, failure = .valueError message) ∨ failure.caught = false := by
  unfold pageOffset at h
  split at h
  · cases h
  · cases h
  · unfold offset at h
    split at h
    · exact Or.inl ⟨_, (Except.error.inj h).symm⟩
    · split at h
      · exact Or.inl ⟨_, (Except.error.inj h).symm⟩
      · dsimp only at h
        split at h
        · exact Or.inl ⟨_, (Except.error.inj h).symm⟩
        · split at h
          · exact checkValues_error h
          · exact Or.inl ⟨_, (Except.error.inj h).symm⟩
          · exact Or.inl ⟨_, (Except.error.inj h).symm⟩
          · next failure' _ _ hloads =>
            obtain rfl := Except.error.inj h
            rcases ofJson_error hloads with hvalue | rfl
            · exact Or.inl hvalue
            · exact Or.inr rfl
  · exact Or.inl ⟨_, (Except.error.inj h).symm⟩

/-- The next cursor is made, and is empty behind the last page. -/
theorem nextCursor_ok (i : Interpreter) {session : Session} (hid : IdText session.id)
    (hlow : 0 ≤ session.snapshot.revision) (hhigh : session.snapshot.revision < 2 ^ 63)
    (hsize : session.snapshot.rules.length < 2 ^ 63) (k : ℕ) :
    ∃ c, nextCursor i.process d session k = .ok c ∧ (c = [] ↔ ¬ k + 1 < session.snapshot.rules.length) := by
  unfold nextCursor
  split_ifs with hnext
  · obtain ⟨c, hc, hne, -⟩ := cursor_round_trip i d hid hlow hhigh hsize (Nat.le_add_left 1 k) hnext
    exact ⟨c, hc, by simp [hne, hnext]⟩
  · exact ⟨[], rfl, by simp [hnext]⟩

theorem pages_blotted (rules : Json) {c c' : Text} (h : c = [] ↔ c' = []) :
    Reply.blotted ⟨200, [(text "rules", .arr [rules]), (text "cursor", .str c)]⟩ =
      Reply.blotted ⟨200, [(text "rules", .arr [rules]), (text "cursor", .str c')]⟩ := by
  cases c with
  | nil =>
    obtain rfl := h.mp rfl
    rfl
  | cons x xs =>
    cases c' with
    | nil => cases h.mpr rfl
    | cons y ys => simp [Reply.blotted, blot]

theorem ruledownload_same {t : Tables} {session : Session} {id : Text} (hm : SameModel m m')
    (hr : SameRequest i (i.rekeyed mac) m m' r r') (hsession : m.sessions r.device = some session)
    (hsession' : m'.sessions r.device = some { session with id := id }) (hid : IdText session.id)
    (hid' : IdText id) (hstocked : Stocked i t session.snapshot) (hhigh : session.snapshot.revision < 2 ^ 63) :
    SameModel (m.ruledownload i.process session r).1
        (m'.ruledownload (i.rekeyed mac).process { session with id := id } r').1 ∧
      SameOutcome (m.ruledownload i.process session r).2
        (m'.ruledownload (i.rekeyed mac).process { session with id := id } r').2 := by
  unfold Model.ruledownload
  have hask := hr.cursor session { session with id := id } hsession hsession'
  have hlow : 0 ≤ session.snapshot.revision := by linarith [hstocked.low]
  have hsize : session.snapshot.rules.length < 2 ^ 63 := hstocked.size.trans_lt (by norm_num)
  rcases hask with heq | ⟨message, message', hplain, hdurable⟩
  · rw [← heq]
    cases hoffset : pageOffset i.process session r with
    | error failure =>
      rcases pageOffset_error hoffset with ⟨message, rfl⟩ | hcaught
      · exact ⟨hm, .refl _⟩
      · cases failure with
        | valueError | integrityError | operationalError => cases hcaught
        | typeError | lookupError | recursionError | overflowError => exact ⟨hm, rfl, hcaught⟩
    | ok k =>
      dsimp only
      cases hraw : session.snapshot.rules[k]? with
      | none => exact ⟨hm, rfl, rfl⟩
      | some raw =>
        obtain ⟨rule, hrule⟩ := hstocked.loads raw (List.mem_of_getElem? hraw)
        have hrule' : (i.rekeyed mac).process.codec.loads (.bytes raw) = .ok rule := hrule
        simp only [hrule, hrule']
        obtain ⟨c, hc, hlast⟩ := nextCursor_ok (d := r.device) i hid hlow hhigh hsize k
        obtain ⟨c', hc', hlast'⟩ := @nextCursor_ok r.device
          (i.rekeyed mac) { session with id := id } hid' hlow hhigh hsize k
        rw [hr.device, hc, hc']
        exact ⟨hm.set { session with served := insert k session.served } id,
          pages_blotted rule (hlast.trans hlast'.symm)⟩
  · rw [hplain, hdurable]
    exact ⟨hm, .refl _⟩

theorem postflight_same {session : Session} {id : Text} (hm : SameModel m m')
    (hr : SameRequest i (i.rekeyed mac) m m' r r') :
    SameModel (m.postflight session r).1 (m'.postflight { session with id := id } r').1 ∧
      SameOutcome (m.postflight session r).2 (m'.postflight { session with id := id } r').2 := by
  unfold Model.postflight
  rw [hr.device, hr.body "rules_received" (by decide), hr.body "rules_processed" (by decide),
    hr.body "syncType" (by decide)]
  dsimp only
  split_ifs
  · refine ⟨?_, .refl _⟩
    have hset := hm.set (d := r.device) { session with acked := true } id
    exact ⟨hset.sessions, hset.digests⟩
  · exact ⟨hm, .refl _⟩

end Same

section Handle
variable {i : Interpreter} {mac : { mac : Bytes → Bytes // ∀ payload, (mac payload).length = 32 }}
  {t : Tables} {m m' : Model} {r r' : Request}

/-- The snapshot of a preflight can be pinned by both models. -/
structure Pinnable (m m' : Model) (r : Request) : Prop where
  snapshot : m'.snapshot = m.snapshot
  plain : m.acknowledged r.device ≤ m.snapshot.revision
  durable : m'.acknowledged r.device ≤ m.snapshot.revision

/-- Sessions that can be paged through. -/
structure Pageables (i : Interpreter) (t : Tables) (m : Model) : Prop where
  id : ∀ d session, m.sessions d = some session → IdText session.id
  stocked : ∀ d session, m.sessions d = some session → Stocked i t session.snapshot

/-- SQLite keeps revisions of 64 bits. -/
def Stored (t : Tables) : Prop := ∀ row ∈ t.snapshots, bindable row.revision = true

theorem Stocked.high {snapshot : Fixture} (h : Stocked i t snapshot) (hstored : Stored t) :
    bindable snapshot.revision = true ∧ snapshot.revision < 2 ^ 63 := by
  obtain ⟨row, hrow, heq⟩ := List.mem_map.mp h.known
  have hbindable := heq ▸ hstored row hrow
  refine ⟨hbindable, ?_⟩
  simp only [bindable, Bool.and_eq_true, decide_eq_true_eq] at hbindable
  exact hbindable.2

theorem handle_same (hm : SameModel m m') (hr : SameRequest i (i.rekeyed mac) m m' r r')
    (hpreflight : r.stage = .preflight → Pinnable m m' r) (hplain : Pageables i t m)
    (hdurable : Pageables i t m') (hstored : Stored t)
    (hdigests : r.named = true → r.stage = .eventupload → m.live r.device r.now = true →
      ∀ events, uploadEvents r.body = some events →
        ∃ digests, eventDigests i.process.codec events = .ok digests) :
    SameModel (m.handle i.process r).1 (m'.handle (i.rekeyed mac).process r').1 ∧
      SameOutcome (m.handle i.process r).2 (m'.handle (i.rekeyed mac).process r').2 := by
  unfold Model.handle
  rw [hr.named, hr.stage, hr.device, hr.now]
  split_ifs with hnamed hstage
  · obtain ⟨hsnapshot, hrevision, hrevision'⟩ := hpreflight hstage
    exact preflight_same hm hr hsnapshot hrevision hrevision'
  · rcases hm.sessions r.device with ⟨hnone, hnone'⟩ | ⟨session, id, hsome, hsome'⟩
    · rw [hnone, hnone']
      exact ⟨hm, .refl _⟩
    · rw [hsome, hsome']
      have hlive : (session.live r.now = true) ↔ m.live r.device r.now = true := by
        rw [Model.live, hsome]
        rfl
      have hsame : Session.live { session with id := id } r.now = session.live r.now := rfl
      simp only [hsame]
      split_ifs with hexpired
      · cases hstage' : r.stage with
        | preflight => exact absurd hstage' hstage
        | eventupload => exact eventupload_same rfl hm hr (hdigests hnamed hstage' (hlive.mp hexpired))
        | ruledownload =>
          exact ruledownload_same hm hr hsome hsome' (hplain.id _ _ hsome) (hdurable.id _ _ hsome')
            (hplain.stocked _ _ hsome) ((hplain.stocked _ _ hsome).high hstored).2
        | postflight => exact postflight_same hm hr
        | other => exact ⟨hm, .refl _⟩
      · exact ⟨hm, .refl _⟩
  · exact ⟨hm, .refl _⟩

/-- An upload that overflows ends in a `ValueError` of both models, with their sessions kept. -/
theorem handle_overflow {p : Process} (hnamed : r.named = true) (hstage : r.stage = .eventupload)
    (hlive : m.live r.device r.now = true) {events : List Json} (hevents : uploadEvents r.body = some events)
    {failure : Failure} (hdigests : eventDigests p.codec events = .error failure) :
    m.handle p r = (m, .error failure) := by
  unfold Model.handle
  unfold Model.live at hlive
  cases hsession : m.sessions r.device with
  | none =>
    rw [hsession] at hlive
    cases hlive
  | some session =>
    rw [hsession] at hlive
    have hlive' : session.live r.now = true := hlive
    simp [hnamed, hstage, hlive', Model.eventupload, hevents, hdigests]

/-- Where the sessions after a request come from. -/
theorem handle_sessions {p : Process} {d : Device} {session' : Session}
    (h : (m.handle p r).1.sessions d = some session') :
    (∃ session, m.sessions d = some session ∧ session'.snapshot = session.snapshot ∧
      session'.id = session.id) ∨
    (d = r.device ∧ r.stage = .preflight ∧ session'.snapshot = m.snapshot ∧ session'.id = r.id.hex) := by
  have hstep := handle_handled p m r
  generalize m.handle p r = handled at h hstep
  obtain ⟨m', outcome⟩ := handled
  dsimp only at h hstep
  cases hstep with
  | refused | kept | uploaded => exact Or.inl ⟨session', h, rfl, rfl⟩
  | pinned hstage =>
    rw [setSession_sessions] at h
    split_ifs at h with hd
    · obtain rfl := Option.some.inj h
      exact Or.inr ⟨hd, hstage, rfl, rfl⟩
    · exact Or.inl ⟨session', h, rfl, rfl⟩
  | served session offset raw rule hstage hsession =>
    rw [setSession_sessions] at h
    split_ifs at h with hd
    · obtain rfl := Option.some.inj h
      exact Or.inl ⟨session, hd ▸ hsession, rfl, rfl⟩
    · exact Or.inl ⟨session', h, rfl, rfl⟩
  | acknowledged session hstage hsession =>
    rw [setSession_sessions] at h
    split_ifs at h with hd
    · obtain rfl := Option.some.inj h
      exact Or.inl ⟨session, hd ▸ hsession, rfl, rfl⟩
    · exact Or.inl ⟨session', h, rfl, rfl⟩

/-- A device acknowledges nothing but the snapshot of its session. -/
theorem handle_acknowledged {p : Process} (d : Device) :
    (m.handle p r).1.acknowledged d = m.acknowledged d ∨
      ∃ session, m.sessions d = some session ∧
        (m.handle p r).1.acknowledged d = session.snapshot.revision := by
  have hstep := handle_handled p m r
  generalize m.handle p r = handled at hstep
  obtain ⟨m', outcome⟩ := handled
  dsimp only at hstep ⊢
  cases hstep with
  | refused | kept | uploaded | pinned | served => exact Or.inl rfl
  | acknowledged session hstage hsession =>
    simp only [setSession_acknowledged, Function.update_apply]
    split_ifs with hd
    · exact Or.inr ⟨session, hd ▸ hsession, rfl⟩
    · exact Or.inl rfl

end Handle

section Durable
variable {p : Process} {t : Tables} {m : Model} {r : Request} {snapshot : Fixture}

/-- The model that the superclass works on. -/
def seenBy (t : Tables) (m : Model) (r : Request) (snapshot : Fixture) : Model :=
  { withReported m r.device (t.device r.device.name).2 with snapshot := snapshot }

/-- The snapshot of the request, without failures. -/
def SnapshotOf (p : Process) (t : Tables) (m : Model) (r : Request) (snapshot : Fixture) : Prop :=
  (r.stage = .preflight → stateSnapshot p t = .ok snapshot) ∧ (r.stage ≠ .preflight → snapshot = m.snapshot)

theorem currentSnapshot_of (h : SnapshotOf p t m r snapshot) (reported : ℤ) :
    currentSnapshot p t (withReported m r.device reported) r noFaults = .ok snapshot := by
  unfold currentSnapshot
  split_ifs with hstage hfault
  · rw [h.2 hstage]
    rfl
  · cases hfault
  · exact h.1 (not_not.mp hstage)

/-- What `DurableModel.handle` makes of the outcome of the superclass, without failures. -/
def settle (p : Process) (t : Tables) (r : Request) (previous : Device → ℤ) (next : Model) :
    Except Failure Reply → Tables × Model × Except Failure Reply
  | .error failure => if failure.caught then unavailable t next r.device else (t, next, .error failure)
  | .ok reply =>
    if r.stage = .postflight ∧ reply.status = 200 then
      match runCall p false (.reportFixture (.str r.device.name) (.int (next.acknowledged r.device))) t with
      | .ok t' => (t', next, .ok reply)
      | .error failure =>
        if failure.caught then unavailable t { next with acknowledged := previous } r.device
        else (t, next, .error failure)
    else (t, next, .ok reply)

theorem durableHandle_noFaults (hactive : (t.device r.device.name).1 = false)
    (hsnapshot : SnapshotOf p t m r snapshot) :
    durableHandle p t m r noFaults =
      settle p t r (seenBy t m r snapshot).acknowledged ((seenBy t m r snapshot).handle p r).1
        ((seenBy t m r snapshot).handle p r).2 := by
  unfold durableHandle
  rw [if_neg (by decide), if_neg (by simp [hactive])]
  simp only [currentSnapshot_of hsnapshot]
  rcases hhandled : (seenBy t m r snapshot).handle p r with ⟨next, failure | reply⟩
  · unfold seenBy at hhandled
    simp only [hhandled]
    rfl
  · unfold seenBy at hhandled
    simp only [hhandled]
    rfl

theorem deviceId_name (d : Device) : deviceId (.str d.name) = .ok d.name := by
  cases d <;> rfl

/-- A report that every check lets through. -/
theorem serial_report_ok {codec : Codec} {d : Device} {n : ℤ} (hactive : (t.device d.name).1 = false)
    (hreported : (t.device d.name).2 ≤ n) (hknown : n ∈ t.snapshots.map Row.revision)
    (hbindable : bindable n = true) (hlow : 1 ≤ n) :
    serial (Call.body codec) (.reportFixture (.str d.name) (.int n)) t =
      .ok (t.upsert ⟨d.name, false, n⟩ fun row => { row with reported := n }) := by
  have hreport : checkReport (.str d.name) n t = .ok t := by
    rw [checkReport, deviceId_name, ok_bind, if_neg (by simp [hactive, hreported])]
    rfl
  have hcheck : checkKnown n t = .ok t := by
    rw [checkKnown, if_neg (by simp [hbindable]), if_neg (not_not.mpr hknown)]
    rfl
  simp only [serial, Call.body, if_neg (not_lt.mpr hlow), pure_eq_ok, ok_bind, runAll, hreport, hcheck,
    upsertReported]

end Durable

end Sync
