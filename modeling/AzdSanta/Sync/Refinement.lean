import AzdSanta.Sync.Twin

/-! When a `DurableModel` answers as a `Model` does. -/
namespace Sync
open Checks Python Transactions

/-- What holds of both models while they go together. -/
structure Agree (i : Interpreter) (w : Twin) : Prop where
  same : SameModel w.plain w.durable
  valid : w.tables.Valid
  stored : Stored w.tables
  active : ∀ d : Device, (w.tables.device d.name).1 = false
  behind : ∀ d, w.plain.acknowledged d ≤ w.tables.maximum
  plain : Pageables i w.tables w.plain
  durable : Pageables i w.tables w.durable
  reported : ∀ d session, w.durable.sessions d = some session →
    (w.tables.device d.name).2 ≤ session.snapshot.revision

section Step
variable {i : Interpreter} {mac : { mac : Bytes → Bytes // ∀ payload, (mac payload).length = 32 }}
  {g : Gateway} {w : Twin} {h h' : HttpRequest} {r r' : Request} {snapshot : Fixture}

theorem Stocked.le_maximum {t : Tables} (hs : Stocked i t snapshot) : snapshot.revision ≤ t.maximum := by
  obtain ⟨row, hrow, heq⟩ := List.mem_map.mp hs.known
  rw [← heq]
  exact Sync.le_maximum hrow

theorem Stocked.mono {t t' : Tables} (hs : Stocked i t snapshot) (hrows : t.snapshots ⊆ t'.snapshots) :
    Stocked i t' snapshot := by
  obtain ⟨row, hrow, heq⟩ := List.mem_map.mp hs.known
  exact ⟨List.mem_map.mpr ⟨row, hrows hrow, heq⟩, hs.low, hs.size, hs.loads⟩

/-- No report is above the latest snapshot. -/
theorem reported_le_maximum {t : Tables} (hvalid : t.Valid) (hs : Stocked i t snapshot)
    (d : Text) : (t.device d).2 ≤ t.maximum := by
  rcases hvalid.reported d with hzero | ⟨row, hrow, heq⟩
  · have hlow := hs.low
    have hle := hs.le_maximum
    omega
  · rw [← heq]
    exact Sync.le_maximum hrow

/-- Sessions after a request can be paged through as well. -/
theorem Pageables.handle {t : Tables} {m : Model} {p : Process} (hm : Pageables i t m)
    (hsnapshot : r.stage = .preflight → Stocked i t m.snapshot) : Pageables i t (m.handle p r).1 := by
  constructor
  · intro d session hsession
    rcases handle_sessions hsession with ⟨before, hbefore, -, hid⟩ | ⟨-, -, -, hid⟩
    · exact hid ▸ hm.id d before hbefore
    · exact hid ▸ hex_idText r.id
  · intro d session hsession
    rcases handle_sessions hsession with ⟨before, hbefore, heq, -⟩ | ⟨-, hstage, heq, -⟩
    · exact heq ▸ hm.stocked d before hbefore
    · exact heq ▸ hsnapshot hstage

theorem Pageables.mono {t t' : Tables} {m : Model} (hm : Pageables i t m) (hrows : t.snapshots ⊆ t'.snapshots) :
    Pageables i t' m :=
  ⟨hm.id, fun d session hsession => (hm.stocked d session hsession).mono hrows⟩

theorem maximum_mono {t t' : Tables} (h : t.Write t') : t.maximum ≤ t'.maximum := by
  cases h with
  | publish row hmaximum =>
    have hle : row.revision ≤ Tables.maximum { t with snapshots := t.snapshots ++ [row] } :=
      Sync.le_maximum (List.mem_append_right _ List.mem_cons_self)
    exact hmaximum.le.trans hle
  | revoke d =>
    unfold Tables.maximum
    rw [upsert_snapshots]
  | report d n =>
    unfold Tables.maximum
    rw [upsert_snapshots]

/-- Both models after a request, as long as the file stays. -/
theorem Agree.handled (hw : Agree i w) {p q : Process} {m seen : Model} (hm : m.sessions = w.plain.sessions)
    (hseen : seen.sessions = w.durable.sessions) (hacknowledged : m.acknowledged = w.plain.acknowledged)
    (hstage : r'.stage = r.stage)
    (hsnapshot : r.stage = .preflight → m.snapshot = snapshot ∧ seen.snapshot = snapshot ∧
      Stocked i w.tables snapshot ∧ snapshot.revision = w.tables.maximum)
    (hsame : SameModel (m.handle p r).1 (seen.handle q r').1) :
    Agree i ⟨w.tables, (seen.handle q r').1, (m.handle p r).1⟩ where
  same := hsame
  valid := hw.valid
  stored := hw.stored
  active := hw.active
  behind d := by
    rcases handle_acknowledged (p := p) (m := m) (r := r) d with heq | ⟨session, hsession, heq⟩
    · rw [heq, hacknowledged]
      exact hw.behind d
    · rw [heq]
      exact (hw.plain.stocked d session (hm ▸ hsession)).le_maximum
  plain := by
    refine Pageables.handle ⟨hm ▸ hw.plain.id, hm ▸ hw.plain.stocked⟩ fun hpreflight => ?_
    obtain ⟨heq, -, hstocked, -⟩ := hsnapshot hpreflight
    exact heq ▸ hstocked
  durable := by
    refine Pageables.handle ⟨hseen ▸ hw.durable.id, hseen ▸ hw.durable.stocked⟩ fun hpreflight => ?_
    obtain ⟨-, heq, hstocked, -⟩ := hsnapshot (hstage ▸ hpreflight)
    exact heq ▸ hstocked
  reported d session hsession := by
    rcases handle_sessions hsession with ⟨before, hbefore, heq, -⟩ | ⟨-, hpreflight, heq, -⟩
    · rw [heq]
      exact hw.reported d before (hseen ▸ hbefore)
    · obtain ⟨-, hs, hstocked, hmaximum⟩ := hsnapshot (hstage ▸ hpreflight)
      rw [heq, hs, hmaximum]
      exact reported_le_maximum hw.valid hstocked _

/-- Both models behind a report of the session. -/
theorem Agree.report (hw : Agree i w) {d : Device} {session : Session}
    (hsession : w.durable.sessions d = some session) :
    let t := w.tables.upsert ⟨d.name, false, session.snapshot.revision⟩
      fun row => { row with reported := session.snapshot.revision }
    Agree i { w with tables := t } := by
  intro t
  have hstocked := hw.durable.stocked d session hsession
  have hwrite := Tables.Write.report d.name session.snapshot.revision (hw.active d)
    (hw.reported d session hsession) hstocked.known
  have hrows := upsert_snapshots w.tables ⟨d.name, false, session.snapshot.revision⟩
    fun row => { row with reported := session.snapshot.revision }
  refine ⟨hw.same, hwrite.valid hw.valid, ?_, fun e => ?_, fun e => (hw.behind e).trans (maximum_mono hwrite),
    hw.plain.mono (by rw [hrows]; exact List.Subset.refl _),
    hw.durable.mono (by rw [hrows]; exact List.Subset.refl _), fun e other hother => ?_⟩
  · intro row hrow
    exact hw.stored row (hrows ▸ hrow)
  · rw [report_device]
    split_ifs
    · exact hw.active e
    · exact hw.active e
  · rw [report_device]
    split_ifs with hname
    · obtain rfl := name_injective hname
      obtain rfl := Option.some.inj (hsession.symm.trans hother)
      exact le_rfl
    · exact hw.reported e other hother

theorem Agree.publish (hw : Agree i w) {codec : Codec} {published : Option Snapshot} {t : Tables}
    (ht : serial (Call.body codec) (.publishFixture published) w.tables = .ok t) :
    Agree i { w with tables := t } := by
  have hwrite := serial_write ht
  obtain ⟨row, -, -, hbindable, rfl⟩ := serial_publish ht
  have hrows : w.tables.snapshots ⊆ w.tables.snapshots ++ [row] := List.subset_append_left _ _
  refine ⟨hw.same, hwrite.valid hw.valid, ?_, hw.active, fun e => (hw.behind e).trans (maximum_mono hwrite),
    hw.plain.mono hrows, hw.durable.mono hrows, hw.reported⟩
  intro other hother
  rcases List.mem_append.mp hother with hother | hother
  · exact hw.stored other hother
  · rw [List.mem_singleton.mp hother]
    exact hbindable

theorem given_eq (w : Twin) (h : HttpRequest) : ∃ given, w.given i h = { w.plain with snapshot := given } := by
  unfold Twin.given
  split
  · exact ⟨_, rfl⟩
  · exact ⟨w.plain.snapshot, rfl⟩

theorem given_preflight {d : Device} (hroute : routes.lookup h.path = some (.preflight, d))
    (hsnapshot : stateSnapshot i.process w.tables = .ok snapshot) :
    w.given i h = { w.plain with snapshot := snapshot } := by
  rw [Twin.given, hroute, hsnapshot]

/-- What both models see of a request: the snapshot, and two models that hold the same. -/
structure Seen (i : Interpreter) (w : Twin) (h : HttpRequest) (r r' : Request) (snapshot : Fixture) : Prop where
  of : SnapshotOf i.process w.tables w.durable r' snapshot
  given : (w.given i h).sessions = w.plain.sessions ∧ (w.given i h).acknowledged = w.plain.acknowledged ∧
    (w.given i h).eventDigests = w.plain.eventDigests ∧ (w.given i h).tokens = w.plain.tokens
  pinned : r.stage = .preflight → (w.given i h).snapshot = snapshot ∧ Stocked i w.tables snapshot ∧
    snapshot.revision = w.tables.maximum

theorem exists_seen (hfloat : ReprLegible i) (hadmitted : Admitted i g h r) (hstage : r'.stage = r.stage)
    (hread : r.stage = .preflight → ∃ snapshot, stateSnapshot i.process w.tables = .ok snapshot) :
    ∃ snapshot, Seen i w h r r' snapshot := by
  have hgiven : (w.given i h).sessions = w.plain.sessions ∧
      (w.given i h).acknowledged = w.plain.acknowledged ∧
      (w.given i h).eventDigests = w.plain.eventDigests ∧ (w.given i h).tokens = w.plain.tokens := by
    obtain ⟨given, heq⟩ := given_eq (i := i) w h
    rw [heq]
    exact ⟨rfl, rfl, rfl, rfl⟩
  by_cases hpreflight : r.stage = .preflight
  · obtain ⟨snapshot, hsnapshot⟩ := hread hpreflight
    refine ⟨snapshot, ⟨fun _ => hsnapshot, fun hne => absurd (hstage.trans hpreflight) hne⟩, hgiven, fun _ => ?_⟩
    rw [given_preflight (hpreflight ▸ hadmitted.route) hsnapshot]
    exact ⟨rfl, stateSnapshot_stocked hfloat hsnapshot⟩
  · exact ⟨w.durable.snapshot, ⟨fun heq => absurd (hstage.symm.trans heq) hpreflight, fun _ => rfl⟩, hgiven,
      fun heq => absurd heq hpreflight⟩

theorem Seen.same (hseen : Seen i w h r r' snapshot) (hw : Agree i w) :
    SameModel (w.given i h) (seenBy w.tables w.durable r' snapshot) := by
  obtain ⟨hsessions, -, hdigests, -⟩ := hseen.given
  exact ⟨hsessions ▸ hw.same.sessions, by rw [hdigests]; exact hw.same.digests⟩

theorem Seen.request (hseen : Seen i w h r r' snapshot)
    (hr : SameRequest i (i.rekeyed mac) w.plain w.durable r r') :
    SameRequest i (i.rekeyed mac) (w.given i h) (seenBy w.tables w.durable r' snapshot) r r' :=
  ⟨hr.stage, hr.device, hr.now, hr.stamp, hr.body, hseen.given.1 ▸ hr.cursor⟩

theorem Seen.handled (hseen : Seen i w h r r' snapshot) (hw : Agree i w) (hroom : g.room ≤ i.spare + 1)
    (hadmitted : Admitted i g h r) (hr : SameRequest i (i.rekeyed mac) w.plain w.durable r r')
    (hfinite : ¬ Overflows w.plain r) :
    SameModel ((w.given i h).handle i.process r).1
        ((seenBy w.tables w.durable r' snapshot).handle (i.rekeyed mac).process r').1 ∧
      SameOutcome ((w.given i h).handle i.process r).2
        ((seenBy w.tables w.durable r' snapshot).handle (i.rekeyed mac).process r').2 := by
  obtain ⟨hsessions, hacknowledged, -, -⟩ := hseen.given
  refine handle_same (hseen.same hw) (hseen.request hr) (fun hpreflight => ?_)
    (⟨hsessions ▸ hw.plain.id, hsessions ▸ hw.plain.stocked⟩ : Pageables i w.tables (w.given i h))
    ⟨hw.durable.id, hw.durable.stocked⟩ hw.stored fun hnamed hstage hlive events hevents => ?_
  · obtain ⟨hsnapshot, hstocked, hmaximum⟩ := hseen.pinned hpreflight
    refine ⟨hsnapshot.symm, ?_, ?_⟩
    · rw [hacknowledged, hsnapshot, hmaximum]
      exact hw.behind _
    · have hreported := reported_le_maximum hw.valid hstocked r.device.name
      rw [hsnapshot, hmaximum, seenBy, withReported, hr.device]
      simpa using hreported
  · rcases eventDigests_refuses hroom hadmitted hevents with ⟨-, hok⟩ | ⟨hrefused, -⟩
    · exact hok
    · refine absurd ⟨hnamed, hstage, ?_, events, hevents, hrefused⟩ hfinite
      rw [Model.live, ← hsessions]
      exact hlive

theorem SameAnswer.refl (answer : Except Raised Reply) : SameAnswer answer answer := by
  cases answer <;> exact rfl

theorem SameOutcome.answer {outcome outcome' : Except Failure Reply} (h : SameOutcome outcome outcome') :
    SameAnswer (answerOf outcome) (answerOf outcome') := by
  cases outcome with
  | ok reply =>
    cases outcome' with
    | ok reply' => exact h
    | error failure => exact h.elim
  | error failure =>
    cases outcome' with
    | ok reply' => exact h.elim
    | error failure' =>
      obtain ⟨rfl, -⟩ := h
      exact .refl _

theorem Agree.given (hw : Agree i w) (h : HttpRequest) : Agree i { w with plain := w.given i h } := by
  obtain ⟨snapshot, heq⟩ := given_eq (i := i) w h
  rw [heq]
  exact ⟨⟨hw.same.sessions, hw.same.digests⟩, hw.valid, hw.stored, hw.active, hw.behind,
    ⟨hw.plain.id, hw.plain.stocked⟩, hw.durable, hw.reported⟩

/-- A request that does not overflow leaves both models together. -/
theorem post_same (hw : Agree i w) (hfloat : ReprLegible i) (hroom : g.room ≤ i.spare + 1)
    (hplain : h.admit i g w.plain.tokens = .ok r)
    (hdurable : h'.admit (i.rekeyed mac) g w.durable.tokens = .ok r')
    (hr : SameRequest i (i.rekeyed mac) w.plain w.durable r r')
    (hread : r.stage = .preflight → ∃ snapshot, stateSnapshot i.process w.tables = .ok snapshot)
    (hfinite : ¬ Overflows w.plain r) :
    Agree i (w.step i (i.rekeyed mac) g (.post h h')) ∧
      SameAnswer (w.plainAnswer i g h) (w.durableAnswer (i.rekeyed mac) g h') := by
  have hadmitted := admit_admitted hfloat hplain
  obtain ⟨snapshot, hseen⟩ := exists_seen (w := w) hfloat hadmitted hr.stage hread
  obtain ⟨hmodels, houtcome⟩ := hseen.handled hw hroom hadmitted hr hfinite
  have hagree := hw.handled
    hseen.given.1 (show (seenBy w.tables w.durable r' snapshot).sessions = w.durable.sessions from rfl) hseen.given.2.1 hr.stage
    (fun hpreflight => ⟨(hseen.pinned hpreflight).1, rfl, (hseen.pinned hpreflight).2⟩) hmodels
  have hactive : (w.tables.device r'.device.name).1 = false := hw.active _
  have hdone := durableHandle_noFaults (p := (i.rekeyed mac).process) hactive hseen.of
  have hhandled := handle_handled (i.rekeyed mac).process (seenBy w.tables w.durable r' snapshot) r'
  simp only [Twin.step, Twin.plainAnswer, Twin.durableAnswer, Model.doPost, durablePost, hdurable,
    hseen.given.2.2.2, hplain, hdone]
  generalize (w.given i h).handle i.process r = handled at houtcome hagree ⊢
  generalize (seenBy w.tables w.durable r' snapshot).handle (i.rekeyed mac).process r' = handled'
    at houtcome hagree hhandled ⊢
  obtain ⟨next, outcome⟩ := handled
  obtain ⟨next', outcome'⟩ := handled'
  dsimp only at houtcome hagree hhandled ⊢
  cases outcome with
  | error failure =>
    cases outcome' with
    | ok reply' => exact houtcome.elim
    | error failure' =>
      obtain ⟨rfl, hcaught⟩ := houtcome
      rw [settle, if_neg (by simp [hcaught])]
      exact ⟨hagree, .refl _⟩
  | ok reply =>
    cases outcome' with
    | error failure' => exact houtcome.elim
    | ok reply' =>
      simp only [settle]
      split_ifs with haccepted
      · obtain ⟨session, hsession, -, -, hacknowledged, hnext⟩ :=
          hhandled.accepted rfl haccepted.1 haccepted.2
        have hsession' : next'.sessions r'.device = some { session with acked := true } := by
          rw [hnext, if_pos rfl]
        have hstocked : Stocked i w.tables session.snapshot := hw.durable.stocked _ session hsession
        have hreport := @serial_report_ok _ (i.rekeyed mac).process.codec _ _ hactive
          (hw.reported _ session hsession) hstocked.known (hstocked.high hw.stored).1 hstocked.low
        have hreported := hagree.report hsession'
        rw [hacknowledged, runCall, if_neg (by decide), hreport]
        exact ⟨hreported, houtcome⟩
      · exact ⟨hagree, houtcome⟩

/-- An upload that overflows is answered with 400 by one model and with 503 by the other. -/
theorem post_overflow (hw : Agree i w) (hfloat : ReprLegible i) (hroom : g.room ≤ i.spare + 1)
    (hplain : h.admit i g w.plain.tokens = .ok r)
    (hdurable : h'.admit (i.rekeyed mac) g w.durable.tokens = .ok r')
    (hr : SameRequest i (i.rekeyed mac) w.plain w.durable r r') (hoverflows : Overflows w.plain r) :
    w.plainAnswer i g h = .ok (.bare 400) ∧ w.durableAnswer (i.rekeyed mac) g h' = .ok (.bare 503) := by
  have hadmitted := admit_admitted hfloat hplain
  obtain ⟨hnamed, hstage, hlive, events, hevents, hrefused⟩ := hoverflows
  have hnot : r.stage ≠ .preflight := by
    rw [hstage]
    decide
  obtain ⟨snapshot, hseen⟩ := exists_seen (w := w) hfloat hadmitted hr.stage fun hpreflight => absurd hpreflight hnot
  have hdigests : eventDigests i.process.codec events = .error (.valueError "") := by
    rcases eventDigests_refuses hroom hadmitted hevents with ⟨hfinite, -⟩ | ⟨-, herror⟩
    · obtain ⟨event, hevent, hnonfinite⟩ := hrefused
      exact absurd hnonfinite (hfinite event hevent)
    · exact herror
  have hevents' : uploadEvents r'.body = some events := by
    rw [uploadEvents, hr.body "events" (by decide)]
    exact hevents
  have hgiven : (w.given i h).handle i.process r = (w.given i h, .error (.valueError "")) :=
    handle_overflow hnamed hstage (by rw [Model.live, hseen.given.1]; exact hlive) hevents hdigests
  have hlive' : (seenBy w.tables w.durable r' snapshot).live r'.device r'.now = true := by
    rw [(hseen.same hw).live, hr.device, hr.now, Model.live, hseen.given.1]
    exact hlive
  have hdurable' : (seenBy w.tables w.durable r' snapshot).handle (i.rekeyed mac).process r' =
      (seenBy w.tables w.durable r' snapshot, .error (.valueError "")) :=
    handle_overflow (hr.named.trans hnamed) (hr.stage.trans hstage) hlive' hevents' hdigests
  have hdone := durableHandle_noFaults (p := (i.rekeyed mac).process) (hw.active r'.device) hseen.of
  rw [hdurable'] at hdone
  simp only [Twin.plainAnswer, Twin.durableAnswer, Model.doPost, durablePost, hdurable, hseen.given.2.2.2,
    hplain, hgiven, hdone]
  exact ⟨rfl, rfl⟩

end Step

section Runs
variable {i : Interpreter} {mac : { mac : Bytes → Bytes // ∀ payload, (mac payload).length = 32 }}
  {g : Gateway} {w : Twin}

/-- The same requests reach both models, and every preflight finds a snapshot. -/
def Together (i j : Interpreter) (g : Gateway) (w : Twin) (moves : List Move) : Prop :=
  ∀ h h' earlier, .post h h' :: earlier <:+ moves →
    Paired i j g (w.after i j g earlier) h h' ∧
    ((routes.lookup h.path).any (fun route => route.1 = .preflight) = true →
      ∃ snapshot, stateSnapshot i.process (w.after i j g earlier).tables = .ok snapshot)

/-- A request that overflows in front of the plain model. -/
def PostOverflows (i : Interpreter) (g : Gateway) (w : Twin) (h : HttpRequest) : Prop :=
  ∃ r, h.admit i g w.plain.tokens = .ok r ∧ Overflows w.plain r

/-- Both models answer the request alike and have the same devices in a live session behind it. -/
def SameStep (i j : Interpreter) (g : Gateway) (w : Twin) (h h' : HttpRequest) : Prop :=
  SameAnswer (w.plainAnswer i g h) (w.durableAnswer j g h') ∧
    ∀ d now, (w.step i j g (.post h h')).durable.live d now = (w.step i j g (.post h h')).plain.live d now

theorem step_same (hw : Agree i w) (hfloat : ReprLegible i) (hroom : g.room ≤ i.spare + 1) {h h' : HttpRequest}
    (hpaired : Paired i (i.rekeyed mac) g w h h')
    (hread : (routes.lookup h.path).any (fun route => route.1 = .preflight) = true →
      ∃ snapshot, stateSnapshot i.process w.tables = .ok snapshot)
    (hfinite : ¬ PostOverflows i g w h) :
    Agree i (w.step i (i.rekeyed mac) g (.post h h')) ∧ SameStep i (i.rekeyed mac) g w h h' := by
  cases hpaired with
  | refused answer hplain hdurable =>
    have hgiven := hw.given h
    have htokens : h.admit i g (w.given i h).tokens = .error answer := by
      obtain ⟨snapshot, heq⟩ := given_eq (i := i) w h
      rw [heq]
      exact hplain
    have hstep : w.step i (i.rekeyed mac) g (.post h h') = { w with plain := w.given i h } := by
      simp only [Twin.step, Model.doPost, durablePost, htokens, hdurable]
    refine ⟨hstep ▸ hgiven, ?_, fun d now => ?_⟩
    · simp only [Twin.plainAnswer, Twin.durableAnswer, Model.doPost, durablePost, htokens, hdurable]
      exact .refl answer
    · rw [hstep]
      exact hgiven.same.live d now
  | admitted r r' hplain hdurable hsame =>
    have hroute := (admit_admitted hfloat hplain).route
    obtain ⟨hagree, hanswer⟩ := post_same hw hfloat hroom hplain hdurable hsame
      (fun hpreflight => hread (by rw [hroute]; simp [hpreflight])) fun hoverflows => hfinite ⟨r, hplain, hoverflows⟩
    exact ⟨hagree, hanswer, fun d now => hagree.same.live d now⟩

theorem step_overflow (hw : Agree i w) (hfloat : ReprLegible i) (hroom : g.room ≤ i.spare + 1)
    {h h' : HttpRequest} (hpaired : Paired i (i.rekeyed mac) g w h h') (hoverflows : PostOverflows i g w h) :
    ¬ SameStep i (i.rekeyed mac) g w h h' := by
  obtain ⟨r, hr, hoverflows⟩ := hoverflows
  cases hpaired with
  | refused answer hplain => rw [hr] at hplain; cases hplain
  | admitted r₁ r' hplain hdurable hsame =>
    obtain rfl := Except.ok.inj (hr.symm.trans hplain)
    obtain ⟨hfirst, hsecond⟩ := post_overflow hw hfloat hroom hplain hdurable hsame hoverflows
    rintro ⟨hanswer, -⟩
    rw [hfirst, hsecond] at hanswer
    have hstatus : (400 : ℕ) = 503 := congrArg Reply.status hanswer
    cases hstatus

theorem after_agree (hw : Agree i w) (hfloat : ReprLegible i) (hroom : g.room ≤ i.spare + 1)
    {moves : List Move} (htogether : Together i (i.rekeyed mac) g w moves)
    (hfinite : ∀ h h' earlier, .post h h' :: earlier <:+ moves →
      ¬ PostOverflows i g (w.after i (i.rekeyed mac) g earlier) h) :
    Agree i (w.after i (i.rekeyed mac) g moves) := by
  induction moves with
  | nil => exact hw
  | cons move moves ih =>
    have hbefore := ih (fun h h' earlier hearlier => htogether h h' earlier (hearlier.trans (List.suffix_cons _ _)))
      fun h h' earlier hearlier => hfinite h h' earlier (hearlier.trans (List.suffix_cons _ _))
    cases move with
    | post h h' =>
      obtain ⟨hpaired, hread⟩ := htogether h h' moves List.suffix_rfl
      exact (step_same hbefore hfloat hroom hpaired hread (hfinite h h' moves List.suffix_rfl)).1
    | publish published =>
      simp only [Twin.after, Twin.step]
      split
      · next t ht => exact hbefore.publish ht
      · exact hbefore

/-- Alike throughout, or apart at an upload that overflows. -/
theorem alike_iff (hw : Agree i w) (hfloat : ReprLegible i) (hroom : g.room ≤ i.spare + 1)
    {moves : List Move} (htogether : Together i (i.rekeyed mac) g w moves) :
    (∀ h h' earlier, .post h h' :: earlier <:+ moves →
      SameStep i (i.rekeyed mac) g (w.after i (i.rekeyed mac) g earlier) h h') ↔
    ∀ h h' earlier, .post h h' :: earlier <:+ moves →
      ¬ PostOverflows i g (w.after i (i.rekeyed mac) g earlier) h := by
  induction moves with
  | nil => simp
  | cons move moves ih =>
    have htail : Together i (i.rekeyed mac) g w moves :=
      fun h h' earlier hearlier => htogether h h' earlier (hearlier.trans (List.suffix_cons _ _))
    have hsplit (h h' : HttpRequest) (earlier : List Move) (hearlier : .post h h' :: earlier <:+ move :: moves) :
        (.post h h' = move ∧ earlier = moves) ∨ .post h h' :: earlier <:+ moves :=
      (List.suffix_cons_iff.mp hearlier).imp List.cons.inj id
    constructor
    · intro hsame h h' earlier hearlier
      have hfinite := (ih htail).mp fun h h' earlier hearlier =>
        hsame h h' earlier (hearlier.trans (List.suffix_cons _ _))
      rcases hsplit h h' earlier hearlier with ⟨rfl, rfl⟩ | hearlier
      · obtain ⟨hpaired, -⟩ := htogether h h' earlier List.suffix_rfl
        have hagree := after_agree hw hfloat hroom htail hfinite
        exact fun hoverflows => step_overflow hagree hfloat hroom hpaired hoverflows
          (hsame h h' earlier List.suffix_rfl)
      · exact hfinite h h' earlier hearlier
    · intro hfinite h h' earlier hearlier
      have hagree : Agree i (w.after i (i.rekeyed mac) g earlier) := by
        have hbefore : earlier <:+ move :: moves := (List.suffix_cons _ _).trans hearlier
        exact after_agree hw hfloat hroom
          (fun h h' e he => htogether h h' e (he.trans hbefore)) fun h h' e he => hfinite h h' e (he.trans hbefore)
      obtain ⟨hpaired, hread⟩ := htogether h h' earlier hearlier
      exact (step_same hagree hfloat hroom hpaired hread (hfinite h h' earlier hearlier)).2

/-- The file behind any calls of its connections. -/
theorem stateAfter_stored (codec : Codec) (actions : List (Action Failure Call)) :
    (stateAfter codec actions).tables.Valid ∧ Stored (stateAfter codec actions).tables ∧
      0 ≤ (stateAfter codec actions).tables.maximum := by
  refine Database.after_invariant (P := fun t => t.Valid ∧ Stored t ∧ 0 ≤ t.maximum)
    ⟨Tables.empty_valid, by simp [Stored, Tables.empty], le_rfl⟩ ?_ actions
  rintro call t t' ⟨hvalid, hstored, hmaximum⟩ hserial
  have hwrite := serial_write hserial
  refine ⟨hwrite.valid hvalid, ?_, hmaximum.trans (maximum_mono hwrite)⟩
  cases call with
  | publishFixture snapshot =>
    obtain ⟨row, -, -, hbindable, rfl⟩ := serial_publish hserial
    intro other hother
    rcases List.mem_append.mp hother with hother | hother
    · exact hstored other hother
    · rw [List.mem_singleton.mp hother]
      exact hbindable
  | revokeFixture device =>
    obtain ⟨d, -, rfl⟩ := serial_revoke hserial
    unfold Stored
    rwa [upsert_snapshots]
  | reportFixture device revision =>
    obtain ⟨d, n, -, -, -, -, -, rfl⟩ := serial_report hserial
    unfold Stored
    rwa [upsert_snapshots]

end Runs

/-- A new process of each model over a file that any calls have left behind. -/
def Twin.initial (i : Interpreter) (actions : List (Action Failure Call)) (snapshot : Fixture)
    (plain durable : List (Text × Device)) : Twin :=
  ⟨(stateAfter i.process.codec actions).tables, .initial snapshot durable, .initial snapshot plain⟩

/-- Cursors that both models issued behind the same page lead both to the same page. -/
theorem nextCursor_sameAsk {i : Interpreter}
    (mac : { mac : Bytes → Bytes // ∀ payload, (mac payload).length = 32 }) {t : Tables} {session : Session}
    {id c c' : Text} {k : ℕ} {r r' : Request} (hid : IdText session.id) (hid' : IdText id)
    (hstocked : Stocked i t session.snapshot) (hstored : Stored t) (hdevice : r'.device = r.device)
    (hc : nextCursor i.process r.device session k = .ok c)
    (hc' : nextCursor (i.rekeyed mac).process r.device { session with id := id } k = .ok c')
    (hr : r.body.get "cursor" = some (.str c)) (hr' : r'.body.get "cursor" = some (.str c')) :
    SameAsk (pageOffset i.process session r)
      (pageOffset (i.rekeyed mac).process { session with id := id } r') := by
  have hlow : 0 ≤ session.snapshot.revision := by linarith [hstocked.low]
  have hsize : session.snapshot.rules.length < 2 ^ 63 := hstocked.size.trans_lt (by norm_num)
  have hhigh := (hstocked.high hstored).2
  refine Or.inl ?_
  simp only [pageOffset, hr, hr', hdevice]
  unfold nextCursor at hc hc'
  split_ifs at hc hc' with hnext
  · obtain ⟨first, hfirst, hne, hoffset⟩ := cursor_round_trip i r.device hid hlow hhigh hsize
      (Nat.le_add_left 1 k) hnext
    obtain ⟨second, hsecond, hne', hoffset'⟩ := @cursor_round_trip { session with id := id } _
      (i.rekeyed mac) r.device hid' hlow hhigh hsize (Nat.le_add_left 1 k) hnext
    obtain rfl := Except.ok.inj (hfirst.symm.trans hc)
    obtain rfl := Except.ok.inj (hsecond.symm.trans hc')
    cases first with
    | nil => exact absurd rfl hne
    | cons x xs =>
      cases second with
      | nil => exact absurd rfl hne'
      | cons y ys => exact hoffset.trans hoffset'.symm
  · obtain rfl := Except.ok.inj hc
    obtain rfl := Except.ok.inj hc'
    rfl

/-- An interpreter that is asked for one float, the literal `1e999`. -/
def sampleFloats : Interpreter :=
  { sampleInterpreter with float := fun literal => if literal = text "1e999" then text "inf" else text "1.0" }

def sampleGateway : Gateway where
  inflate _ _ := none
  room := 4

def samplePost (path body : String) : HttpRequest where
  path := text path
  authorization := [text "Bearer t"]
  transferEncoding := none
  contentLength := [decimal body.length]
  contentType := some (text "application/json")
  contentEncoding := none
  received := (text body).map UInt8.ofNat
  ended := true
  now := 0
  stamp := 0
  id := ⟨List.replicate 16 1, List.length_replicate⟩

def samplePreflight : HttpRequest := samplePost "/preflight/device-a" "\x7b\"machine_id\":\"device-a\"\x7d"

/-- One event, with a number that a float does not hold. -/
def sampleUpload : HttpRequest :=
  samplePost "/eventupload/device-a" ("\x7b\"machine_id\":\"device-a\",\"events\":[\x7b\"file_sha256\":\"" ++
    "0000000000000000000000000000000000000000000000000000000000000000" ++
    "\",\"decision\":\"BLOCK_BINARY\",\"pid\":1e999\x7d]\x7d")

/-- Both processes happen to draw the same key. -/
def sampleKey : { mac : Bytes → Bytes // ∀ payload, (mac payload).length = 32 } :=
  ⟨sampleFloats.mac, sampleFloats.mac_size⟩

/-- One rule is published and the device starts a session. -/
def sampleMoves : List Move :=
  [.post samplePreflight samplePreflight,
    .publish (some ⟨.int 7, some [.bytes (sampleRule "one")], .str (text "synthetic-only")⟩)]

def sampleStart : Twin := .initial sampleFloats [] sampleFixture [(text "t", .a)] [(text "t", .a)]

def sampleTwin (moves : List Move) : Twin :=
  sampleStart.after sampleFloats (sampleFloats.rekeyed sampleKey) sampleGateway moves

theorem sampleFloats_legible : ReprLegible sampleFloats := by
  intro literal
  simp only [sampleFloats]
  split_ifs
  · exact fun hnumber => absurd hnumber (by decide)
  · refine fun _ => ⟨?_, ⟨49, text ".0", rfl, by decide⟩, .float (text "1.0"), fun rest hrest => ?_⟩
    · unfold Ascii
      decide
    · have hdigits : (48 :: rest).takeWhile isDigit = [48] ∧ (48 :: rest).dropWhile isDigit = rest :=
        @takeWhile_append_stops [48] rest (by decide) hrest
      have hwhole : scanWhole (49 :: 46 :: 48 :: rest) = ([49], 46 :: 48 :: rest) := rfl
      have hfraction : scanFraction (46 :: 48 :: rest) = ([46, 48], rest) := by
        rw [scanFraction, hdigits.1, hdigits.2]
        rfl
      change scanWord _ (49 :: 46 :: 48 :: rest) = _
      rw [scanWord_digit rfl]
      simp only [scanUnsigned, hwhole, hfraction, scanExponent_stops hrest]
      rfl

/-- A request without a cursor that both models admit is the same to them. -/
theorem paired_self {i : Interpreter} {mac : { mac : Bytes → Bytes // ∀ payload, (mac payload).length = 32 }}
    {g : Gateway} {w : Twin} {h : HttpRequest} (htokens : w.durable.tokens = w.plain.tokens)
    (hadmitted : ( h.admit i g w.plain.tokens).toOption.any (fun r => (r.body.get "cursor").isNone) = true) :
    Paired i (i.rekeyed mac) g w h h := by
  cases hr : h.admit i g w.plain.tokens with
  | error answer => simp [hr, Except.toOption] at hadmitted
  | ok r =>
    have hcursor : r.body.get "cursor" = none := by simpa [hr, Except.toOption] using hadmitted
    refine .admitted r r hr (by rw [htokens]; exact hr) ⟨rfl, rfl, rfl, rfl, fun _ _ => rfl, fun _ _ _ _ => ?_⟩
    simp only [pageOffset, hcursor]
    exact Or.inl rfl

theorem sample_preflight {h h' : HttpRequest} {earlier : List Move}
    (hearlier : .post h h' :: earlier <:+ sampleMoves) :
    h = samplePreflight ∧ h' = samplePreflight ∧ earlier = sampleMoves.tail := by
  rcases List.suffix_cons_iff.mp hearlier with heq | hearlier
  · obtain ⟨hmove, rfl⟩ := List.cons.inj heq
    obtain ⟨rfl, rfl⟩ := Move.post.inj hmove
    exact ⟨rfl, rfl, rfl⟩
  · rcases List.suffix_cons_iff.mp hearlier with heq | hearlier
    · cases heq
    · cases List.suffix_nil.mp hearlier

/-- What the two models make of the upload, evaluated once. -/
theorem sample_upload :
    (sampleTwin sampleMoves).durable.tokens = (sampleTwin sampleMoves).plain.tokens ∧
    ( sampleUpload.admit sampleFloats sampleGateway (sampleTwin sampleMoves).plain.tokens).toOption.any
      (fun r => (r.body.get "cursor").isNone) = true ∧
    ((sampleTwin sampleMoves).plainAnswer sampleFloats sampleGateway sampleUpload).toOption.map Reply.status =
      some 400 ∧
    ((sampleTwin sampleMoves).durableAnswer (sampleFloats.rekeyed sampleKey) sampleGateway
      sampleUpload).toOption.map Reply.status = some 503 ∧
    (sampleTwin (.post sampleUpload sampleUpload :: sampleMoves)).plain.live .a 1 = true ∧
    (sampleTwin (.post sampleUpload sampleUpload :: sampleMoves)).durable.live .a 1 = false := by
  decide +kernel

theorem sample_together :
    Together sampleFloats (sampleFloats.rekeyed sampleKey) sampleGateway sampleStart
      (.post sampleUpload sampleUpload :: sampleMoves) := by
  intro h h' earlier hearlier
  rcases List.suffix_cons_iff.mp hearlier with heq | hearlier
  · obtain ⟨hmove, rfl⟩ := List.cons.inj heq
    obtain ⟨rfl, rfl⟩ := Move.post.inj hmove
    refine ⟨paired_self sample_upload.1 sample_upload.2.1, fun hroute => ?_⟩
    exact absurd hroute (by decide +kernel)
  · obtain ⟨rfl, rfl, rfl⟩ := sample_preflight hearlier
    refine ⟨paired_self (by decide +kernel) (by decide +kernel), fun _ => ?_⟩
    have hread : (stateSnapshot sampleFloats.process (sampleTwin sampleMoves.tail).tables).toOption.isSome = true := by
      decide +kernel
    cases hsnapshot : stateSnapshot sampleFloats.process (sampleTwin sampleMoves.tail).tables with
    | error failure =>
      rw [hsnapshot] at hread
      cases hread
    | ok snapshot => exact ⟨snapshot, hsnapshot⟩

end Sync
