import AzdSanta.Sync.Paging
import AzdSanta.Sync.DurableModel

/-! Runs of a `DurableModel` with failing operations, restarts and other connections. -/
namespace Sync
open Checks Python Transactions

/-- The database file and the running `DurableModel`, none when its start failed. -/
structure World where
  tables : Tables
  running : Option (Interpreter × Model)

/-- What can happen. A call of another connection that fails changes nothing and is left out. -/
inductive Happening where
  | request (r : Request) (faults : Faults)
  /-- `DurableModel.revoke_fixture_device`. -/
  | revoke (device : Device) (fault : Bool)
  /-- A new process, with another key, builds a `DurableModel` on the same file. -/
  | restart (mac : { mac : Bytes → Bytes // ∀ payload, (mac payload).length = 32 })
      (tokens : List (Text × Device)) (fault : Bool)
  | publishElsewhere (snapshot : Option Snapshot)
  | revokeElsewhere (device : PyValue)

/-- A call of another connection. -/
def World.elsewhere (i : Interpreter) (w : World) (call : Call) : World :=
  match serial (Call.body i.process.codec) call w.tables with
  | .ok t => { w with tables := t }
  | .error _ => w

def World.step (i : Interpreter) (w : World) : Happening → World
  | .request r faults =>
    match w.running with
    | none => w
    | some (own, m) =>
      let answered := durableHandle own.process w.tables m r faults
      ⟨answered.1, some (own, answered.2.1)⟩
  | .revoke device fault =>
    match w.running with
    | none => w
    | some (own, m) =>
      -- The revocation is committed before the model forgets the device.
      match runCall own.process fault (.revokeFixture (.str device.name)) w.tables with
      | .ok t => ⟨t, some (own, m.revokeFixtureDevice device)⟩
      | .error _ => w
  | .restart mac tokens fault =>
    let own := { i with mac := mac.1, mac_size := mac.2 }
    match (if fault then throw .operationalError else stateSnapshot own.process w.tables) with
    | .ok snapshot => { w with running := some (own, .initial snapshot tokens) }
    | .error _ => { w with running := none }
  | .publishElsewhere snapshot => w.elsewhere i (.publishFixture snapshot)
  | .revokeElsewhere device => w.elsewhere i (.revokeFixture device)

/-- The world after `happenings`, newest first, on a file with `tables`. -/
def World.after (i : Interpreter) (tables : Tables) : List Happening → World
  | [] => ⟨tables, none⟩
  | happening :: happenings => (World.after i tables happenings).step i happening

/-- `device` goes on with the session it had. -/
def Continues (w w' : World) (device : Device) : Prop :=
  ∃ own m m' session session', w.running = some (own, m) ∧ w'.running = some (own, m') ∧
    m.sessions device = some session ∧ m'.sessions device = some session' ∧
    session.id = session'.id ∧ session.snapshot = session'.snapshot ∧
    session.expires = session'.expires ∧ session.served ⊆ session'.served

/-- `r` is answered with the rule at `k` of the session of its device. -/
def Pages (w : World) (r : Request) (faults : Faults) (k : ℕ) : Prop :=
  ∃ own m session raw rule reply, w.running = some (own, m) ∧ m.sessions r.device = some session ∧
    session.snapshot.rules[k]? = some raw ∧ own.process.codec.loads (.bytes raw) = .ok rule ∧
    r.stage = .ruledownload ∧ pageOffset own.process session r = .ok k ∧
    (durableHandle own.process w.tables m r faults).2.2 = .ok reply ∧ reply.status = 200 ∧
    reply.body.get "rules" = some (.arr [rule])

/-- `device` got the rule at `k` in the session it still has. -/
inductive PageServed (i : Interpreter) (tables : Tables) (device : Device) (k : ℕ) : List Happening → Prop
  | page (r : Request) (faults : Faults) (earlier : List Happening) (hdevice : r.device = device)
      (hpage : Pages (World.after i tables earlier) r faults k) :
      PageServed i tables device k (.request r faults :: earlier)
  | later (happening : Happening) (happenings : List Happening)
      (hserved : PageServed i tables device k happenings)
      (hcontinues : Continues (World.after i tables happenings)
        (World.after i tables (happening :: happenings)) device) :
      PageServed i tables device k (happening :: happenings)

section Tables
variable {i : Interpreter} {w : World} {tables t t' : Tables} {m m' : Model} {r : Request}
  {outcome : Except Failure Reply}

theorem DurableHandled.write {p : Process} (h : DurableHandled p t m r t' m' outcome) :
    t' = t ∨ t.Write t' := by
  cases h with
  | dropped | refused | passed | raised => exact Or.inl rfl
  | reported _ _ _ _ _ _ _ hserial => exact Or.inr (serial_write hserial)

/-- Only a report changes what is reported. -/
theorem serial_reported {codec : Codec} {call : Call}
    (hcall : ∀ device revision, call ≠ .reportFixture device revision)
    (h : serial (Call.body codec) call t = .ok t') (d : Text) : (t'.device d).2 = (t.device d).2 := by
  cases call with
  | publishFixture snapshot =>
    obtain ⟨row, -, -, -, rfl⟩ := serial_publish h
    rfl
  | revokeFixture device =>
    obtain ⟨name, -, rfl⟩ := serial_revoke h
    rw [revoke_device]
    split_ifs <;> rfl
  | reportFixture device revision => exact absurd rfl (hcall device revision)

/-- A step leaves the tables or writes them once. -/
theorem step_tables (happening : Happening) :
    (w.step i happening).tables = w.tables ∨ w.tables.Write (w.step i happening).tables := by
  have helsewhere (call : Call) :
      (w.elsewhere i call).tables = w.tables ∨ w.tables.Write (w.elsewhere i call).tables := by
    unfold World.elsewhere
    split
    · next t ht => exact Or.inr (serial_write ht)
    · exact Or.inl rfl
  cases happening with
  | request r faults =>
    simp only [World.step]
    split
    · exact Or.inl rfl
    · next own m _ => exact (durableHandle_handled own.process w.tables m r faults).write
  | revoke device fault =>
    simp only [World.step]
    split
    · exact Or.inl rfl
    · split
      · next t ht => exact Or.inr (serial_write (check_eq_ok.mp ht).2)
      · exact Or.inl rfl
  | restart mac tokens fault =>
    simp only [World.step]
    split <;> exact Or.inl rfl
  | publishElsewhere snapshot => exact helsewhere _
  | revokeElsewhere device => exact helsewhere _

theorem after_extends (later earlier : List Happening) :
    (World.after i tables earlier).tables.Extends (World.after i tables (later ++ earlier)).tables := by
  induction later with
  | nil => exact Tables.extends_refl _
  | cons happening later ih =>
    rcases step_tables (i := i) (w := World.after i tables (later ++ earlier)) happening with heq | hwrite
    · rw [List.cons_append, World.after, heq]
      exact ih
    · exact ih.trans hwrite.extends

end Tables

section Sessions
variable {own : Interpreter} {t t' : Tables} {m m' : Model} {r : Request}
  {outcome : Except Failure Reply} {d : Device} {session session' : Session}

/-- What is answered with the rule at `k`. -/
structure PageAnswer (own : Interpreter) (m : Model) (r : Request) (outcome : Except Failure Reply)
    (session : Session) (k : ℕ) : Prop where
  stage : r.stage = .ruledownload
  sessions : m.sessions r.device = some session
  offset : pageOffset own.process session r = .ok k
  rule : ∃ raw rule reply, session.snapshot.rules[k]? = some raw ∧
    own.process.codec.loads (.bytes raw) = .ok rule ∧ outcome = .ok reply ∧ reply.status = 200 ∧
    reply.body.get "rules" = some (.arr [rule])

/-- How a session goes on: as the one before, with what has been answered. -/
structure Successor (own : Interpreter) (t t' : Tables) (m : Model) (r : Request)
    (outcome : Except Failure Reply) (d : Device) (session session' : Session) : Prop where
  sessions : m.sessions d = some session
  id : session.id = session'.id
  snapshot : session.snapshot = session'.snapshot
  expires : session.expires = session'.expires
  kept : session.served ⊆ session'.served
  served : ∀ k ∈ session'.served, k ∈ session.served ∨
    (r.device = d ∧ PageAnswer own m r outcome session k)
  reported : (t'.device d.name).2 = (t.device d.name).2 ∨
    (t'.device d.name).2 = session.snapshot.revision

theorem printInt_error {n : ℤ} {e : JsonError} (h : printInt n = .error e) : e = .valueError := by
  simp only [printInt, throw_eq_error, pure_eq_ok] at h
  split_ifs at h
  exact (Except.error.inj h).symm

theorem canonical_error {k : ℕ} {failure : Failure}
    (h : own.process.codec.canonical (cursorValues d session k) = .error failure) : failure.caught = true := by
  have hvalue (e : JsonError)
      (he : (canonicalWriter (own.spare + 1)).dumpsBytes (cursorValues d session k) = .error e) :
      e = .valueError := by
    simp only [Writer.dumpsBytes, Writer.dumps, canonicalWriter, cursorValues, Writer.print,
      List.mapM_cons, List.mapM_nil, pure_eq_ok, ok_bind] at he
    cases hrevision : printInt session.snapshot.revision with
    | error e' =>
      rw [hrevision] at he
      obtain rfl := Except.error.inj he
      exact printInt_error hrevision
    | ok revision =>
      cases hoffset : printInt (k : ℤ) with
      | error e' =>
        rw [hrevision, hoffset] at he
        obtain rfl := Except.error.inj he
        exact printInt_error hoffset
      | ok offset =>
        rw [hrevision, hoffset] at he
        simp only [ok_bind] at he
        split at he
        · cases he
        · exact (Except.error.inj he).symm
  have hfailure : ofJson ((canonicalWriter (own.spare + 1)).dumpsBytes (cursorValues d session k)) =
      .error failure := h
  cases hdumps : (canonicalWriter (own.spare + 1)).dumpsBytes (cursorValues d session k) with
  | error e =>
    rw [hdumps, hvalue e hdumps] at hfailure
    obtain rfl := Except.error.inj hfailure
    rfl
  | ok raw =>
    rw [hdumps] at hfailure
    cases hfailure

/-- The only failure in making a cursor is a `ValueError`. -/
theorem nextCursor_error {k : ℕ} {failure : Failure}
    (h : nextCursor own.process d session k = .error failure) : failure.caught = true := by
  unfold nextCursor at h
  split_ifs at h
  · cases hcanonical : own.process.codec.canonical (cursorValues d session (k + 1)) with
    | error failure' =>
      rw [cursor, hcanonical] at h
      obtain rfl := Except.error.inj h
      exact canonical_error hcanonical
    | ok payload =>
      rw [cursor, hcanonical] at h
      cases h
  · cases h

theorem Successor.refl (h : m.sessions d = some session)
    (hreported : (t'.device d.name).2 = (t.device d.name).2 ∨
      (t'.device d.name).2 = session.snapshot.revision) :
    Successor own t t' m r outcome d session session :=
  ⟨h, rfl, rfl, rfl, subset_rfl, fun _ hk => Or.inl hk, hreported⟩

theorem DurableHandled.successor (h : DurableHandled own.process t m r t' m' outcome)
    (hsession : m'.sessions d = some session') :
    (session'.served = ∅ ∧ (t'.device d.name).2 ≤ session'.snapshot.revision) ∨
      ∃ session, Successor own t t' m r outcome d session session' := by
  cases h with
  | dropped _ hsessions =>
    rw [hsessions] at hsession
    split_ifs at hsession
    exact Or.inr ⟨session', .refl hsession (Or.inl rfl)⟩
  | refused _ _ hsessions =>
    rw [hsessions] at hsession
    exact Or.inr ⟨session', .refl hsession (Or.inl rfl)⟩
  | passed seen _ _ hsessions hreported hrevoked hhandled hreport havailable huncaught =>
    by_cases hd : d = r.device
    · subst hd
      cases hhandled with
      | refused | kept | uploaded =>
        rw [hsessions] at hsession
        exact Or.inr ⟨session', .refl hsession (Or.inl rfl)⟩
      | pinned _ _ _ hrevision =>
        rw [setSession_sessions, if_pos rfl] at hsession
        obtain rfl := Option.some.inj hsession
        exact Or.inl ⟨rfl, hreported ▸ hrevision⟩
      | served session k raw rule hstage hown hlive hoffset hraw hrule =>
        rw [setSession_sessions, if_pos rfl] at hsession
        obtain rfl := Option.some.inj hsession
        rw [hsessions] at hown
        refine Or.inr ⟨session, hown, rfl, rfl, rfl, Finset.subset_insert _ _, fun j hj => ?_, Or.inl rfl⟩
        rcases Finset.mem_insert.mp hj with rfl | hj
        · refine Or.inr ⟨rfl, hstage, hown, hoffset, raw, rule, ?_⟩
          cases hnext : nextCursor own.process r.device session j with
          | error failure =>
            have hcaught := huncaught failure (by rw [pageReply, hnext]; rfl)
            rw [nextCursor_error hnext] at hcaught
            cases hcaught
          | ok next =>
            refine ⟨_, hraw, hrule, by rw [pageReply, hnext]; rfl, rfl, ?_⟩
            simp [Dict.get]
        · exact Or.inl hj
      | acknowledged _ hstage => exact absurd rfl (hreport _ rfl hstage)
    · rw [hhandled.frame hd, hsessions] at hsession
      exact Or.inr ⟨session', .refl hsession (Or.inl rfl)⟩
  | reported own' _ _ hstage hrevoked hown hserved hserial hsessions =>
    obtain ⟨name, n, hname, hn, -, -, -, rfl⟩ := serial_report hserial
    obtain rfl := PyValue.str.inj hname
    obtain rfl := PyValue.int.inj hn
    rw [hsessions] at hsession
    split_ifs at hsession with hd
    · subst hd
      obtain rfl := Option.some.inj hsession
      refine Or.inr ⟨own', hown, rfl, rfl, rfl, subset_rfl, fun _ hk => Or.inl hk, Or.inr ?_⟩
      rw [report_device, if_pos rfl]
    · refine Or.inr ⟨session', .refl hsession (Or.inl ?_)⟩
      rw [report_device, if_neg fun hname => hd (name_injective hname)]
  | raised own' _ failure hown hsessions =>
    rw [hsessions] at hsession
    split_ifs at hsession with hd
    · subst hd
      obtain rfl := Option.some.inj hsession
      exact Or.inr ⟨own', hown, rfl, rfl, rfl, subset_rfl, fun _ hk => Or.inl hk, Or.inl rfl⟩
    · exact Or.inr ⟨session', .refl hsession (Or.inl rfl)⟩

end Sessions

section Runs
variable {i : Interpreter} {tables : Tables}

/-- What holds of every session in every reachable world. -/
structure Sound (i : Interpreter) (tables : Tables) (happenings : List Happening) : Prop where
  behind : ∀ own m d session, (World.after i tables happenings).running = some (own, m) →
    m.sessions d = some session →
    ((World.after i tables happenings).tables.device d.name).2 ≤ session.snapshot.revision
  served : ∀ own m d session, (World.after i tables happenings).running = some (own, m) →
    m.sessions d = some session → ∀ k ∈ session.served, PageServed i tables d k happenings

/-- A step that leaves sessions and reports alone. -/
theorem Sound.quiet {happening : Happening} {happenings : List Happening}
    (h : Sound i tables happenings)
    (hrunning : ∀ own m', (World.after i tables (happening :: happenings)).running = some (own, m') →
      ∃ m, (World.after i tables happenings).running = some (own, m) ∧
        ∀ d session, m'.sessions d = some session → m.sessions d = some session)
    (hreported : ∀ d, ((World.after i tables (happening :: happenings)).tables.device d).2 =
      ((World.after i tables happenings).tables.device d).2) :
    Sound i tables (happening :: happenings) := by
  constructor
  · intro own m' d session hm' hsession
    obtain ⟨m, hm, hsame⟩ := hrunning own m' hm'
    rw [hreported]
    exact h.behind own m d session hm (hsame d session hsession)
  · intro own m' d session hm' hsession k hk
    obtain ⟨m, hm, hsame⟩ := hrunning own m' hm'
    have hbefore := hsame d session hsession
    refine .later happening happenings (h.served own m d session hm hbefore k hk) ?_
    exact ⟨own, m, m', session, session, hm, hm', hbefore, hsession, rfl, rfl, rfl, subset_rfl⟩

theorem Sound.request {happenings : List Happening} (h : Sound i tables happenings) (r : Request)
    (faults : Faults) : Sound i tables (.request r faults :: happenings) := by
  cases hrunning : (World.after i tables happenings).running with
  | none =>
    have hnone : (World.after i tables (.request r faults :: happenings)) = World.after i tables happenings := by
      rw [World.after, World.step, hrunning]
    exact h.quiet (fun own m' hm' => ⟨m', hnone ▸ hm', fun _ _ hs => hs⟩) fun d => by rw [hnone]
  | some running =>
    obtain ⟨own, m⟩ := running
    have hstep := durableHandle_handled own.process (World.after i tables happenings).tables m r faults
    have hafter : World.after i tables (.request r faults :: happenings) =
        ⟨(durableHandle own.process (World.after i tables happenings).tables m r faults).1,
          some (own, (durableHandle own.process (World.after i tables happenings).tables m r faults).2.1)⟩ := by
      rw [World.after, World.step, hrunning]
    constructor
    · intro own' m' d session hm' hsession
      rw [hafter] at hm' ⊢
      obtain ⟨rfl, rfl⟩ := Prod.mk.inj (Option.some.inj hm')
      rcases hstep.successor hsession with ⟨-, hbehind⟩ | ⟨before, hbefore⟩
      · exact hbehind
      · rcases hbefore.reported with heq | heq
        · rw [heq, ← hbefore.snapshot]
          exact h.behind own m d before hrunning hbefore.sessions
        · rw [heq, ← hbefore.snapshot]
    · intro own' m' d session hm' hsession k hk
      have hm := hm'
      rw [hafter] at hm'
      obtain ⟨rfl, rfl⟩ := Prod.mk.inj (Option.some.inj hm')
      rcases hstep.successor hsession with ⟨hempty, -⟩ | ⟨before, hbefore⟩
      · rw [hempty] at hk
        exact absurd hk (Finset.notMem_empty k)
      · rcases hbefore.served k hk with hk | ⟨rfl, hpage⟩
        · refine .later _ _ (h.served own m d before hrunning hbefore.sessions k hk) ?_
          exact ⟨own, m, _, before, session, hrunning, hm, hbefore.sessions, hsession, hbefore.id,
            hbefore.snapshot, hbefore.expires, hbefore.kept⟩
        · obtain ⟨raw, rule, reply, hraw, hrule, hreply, hstatus, hrules⟩ := hpage.rule
          exact .page r faults happenings rfl ⟨own, m, before, raw, rule, reply, hrunning, hpage.sessions,
            hraw, hrule, hpage.stage, hpage.offset, hreply, hstatus, hrules⟩

/-- A call of another connection leaves the reports alone. -/
theorem elsewhere_reported {w : World} {call : Call} (hcall : ∀ device revision, call ≠ .reportFixture device revision)
    (d : Text) : ((w.elsewhere i call).tables.device d).2 = (w.tables.device d).2 := by
  unfold World.elsewhere
  split
  · next t ht => exact serial_reported hcall ht d
  · rfl

theorem elsewhere_running (w : World) (call : Call) : (w.elsewhere i call).running = w.running := by
  unfold World.elsewhere
  split <;> rfl

theorem Sound.elsewhere {happening : Happening} {happenings : List Happening} {call : Call}
    (h : Sound i tables happenings)
    (hstep : World.after i tables (happening :: happenings) = (World.after i tables happenings).elsewhere i call)
    (hcall : ∀ device revision, call ≠ .reportFixture device revision) :
    Sound i tables (happening :: happenings) := by
  refine h.quiet (fun own m' hm' => ⟨m', ?_, fun _ _ hs => hs⟩) fun d => ?_
  · rw [← hm', hstep, elsewhere_running]
  · rw [hstep, elsewhere_reported hcall]

theorem Sound.revoke {happenings : List Happening} (h : Sound i tables happenings) (device : Device)
    (fault : Bool) : Sound i tables (.revoke device fault :: happenings) := by
  generalize hw : World.after i tables happenings = w at *
  have hafter : World.after i tables (.revoke device fault :: happenings) = w.step i (.revoke device fault) := by
    rw [World.after, hw]
  cases hrunning : w.running with
  | none =>
    have hnone : w.step i (.revoke device fault) = w := by rw [World.step, hrunning]
    rw [hnone] at hafter
    exact h.quiet (fun own m' hm' => ⟨m', by rw [hw, ← hafter, hm'], fun _ _ hs => hs⟩)
      fun d => by rw [hafter, hw]
  | some running =>
    obtain ⟨own, m⟩ := running
    cases hcall : runCall own.process fault (.revokeFixture (.str device.name)) w.tables with
    | error failure =>
      have hnone : w.step i (.revoke device fault) = w := by rw [World.step, hrunning]; simp only [hcall]
      rw [hnone] at hafter
      exact h.quiet (fun own m' hm' => ⟨m', by rw [hw, ← hafter, hm'], fun _ _ hs => hs⟩)
        fun d => by rw [hafter, hw]
    | ok t =>
      have hdone : w.step i (.revoke device fault) = ⟨t, some (own, m.revokeFixtureDevice device)⟩ := by
        rw [World.step, hrunning]
        simp only [hcall]
      rw [hdone] at hafter
      refine h.quiet (fun own' m' hm' => ?_) fun d => ?_
      · rw [hafter] at hm'
        obtain ⟨rfl, rfl⟩ := Prod.mk.inj (Option.some.inj hm')
        refine ⟨m, by rw [hw, hrunning], fun d session hsession => ?_⟩
        rw [revoke_sessions] at hsession
        split_ifs at hsession
        exact hsession
      · rw [hafter, hw]
        exact serial_reported (by rintro _ _ ⟨⟩) (check_eq_ok.mp hcall).2 d

/-- A new process has no session. -/
theorem Sound.restart {happenings : List Happening}
    (mac : { mac : Bytes → Bytes // ∀ payload, (mac payload).length = 32 })
    (tokens : List (Text × Device)) (fault : Bool) :
    Sound i tables (.restart mac tokens fault :: happenings) := by
  have hnew (own : Interpreter) (m : Model)
      (hm : (World.after i tables (.restart mac tokens fault :: happenings)).running = some (own, m))
      (d : Device) : m.sessions d = none := by
    simp only [World.after, World.step] at hm
    split at hm
    · obtain ⟨-, rfl⟩ := Prod.mk.inj (Option.some.inj hm)
      rfl
    · cases hm
  constructor
  · intro own m d session hm hsession
    rw [hnew own m hm d] at hsession
    cases hsession
  · intro own m d session hm hsession
    rw [hnew own m hm d] at hsession
    cases hsession

theorem after_sound (happenings : List Happening) : Sound i tables happenings := by
  induction happenings with
  | nil => exact ⟨by rintro _ _ _ _ ⟨⟩, by rintro _ _ _ _ ⟨⟩⟩
  | cons happening happenings ih =>
    cases happening with
    | request r faults => exact ih.request r faults
    | revoke device fault => exact ih.revoke device fault
    | restart mac tokens fault => exact .restart mac tokens fault
    | publishElsewhere snapshot => exact ih.elsewhere rfl (by rintro _ _ ⟨⟩)
    | revokeElsewhere device => exact ih.elsewhere rfl (by rintro _ _ ⟨⟩)

end Runs

section Outcomes
variable {p : Process} {t t' : Tables} {m m' : Model} {r : Request} {outcome : Except Failure Reply}
  {reply : Reply}

/-- A report that is answered with 200 is in the tables. -/
theorem DurableHandled.reports (h : DurableHandled p t m r t' m' outcome) (hreply : outcome = .ok reply)
    (hstage : r.stage = .postflight) (hstatus : reply.status = 200) :
    ∃ session, m.sessions r.device = some session ∧
      session.served = Finset.range session.snapshot.rules.length ∧
      (t'.device r.device.name).2 = session.snapshot.revision := by
  cases h with
  | dropped =>
    obtain rfl := Except.ok.inj hreply
    cases hstatus
  | refused _ _ _ hrefused =>
    obtain rfl := hrefused reply hreply
    cases hstatus
  | passed _ _ _ _ _ _ _ hreport => exact absurd hstatus (hreport reply hreply hstage)
  | reported session _ _ _ _ hsession hserved hserial =>
    obtain ⟨name, n, hname, hn, -, -, -, rfl⟩ := serial_report hserial
    obtain rfl := PyValue.str.inj hname
    obtain rfl := PyValue.int.inj hn
    exact ⟨session, hsession, hserved, by rw [report_device, if_pos rfl]⟩
  | raised => cases hreply

/-- A revoked device is not answered with 200. -/
theorem DurableHandled.active (h : DurableHandled p t m r t' m' outcome) (hreply : outcome = .ok reply)
    (hstatus : reply.status = 200) : (t.device r.device.name).1 = false := by
  cases h with
  | dropped =>
    obtain rfl := Except.ok.inj hreply
    cases hstatus
  | refused _ _ _ hrefused =>
    obtain rfl := hrefused reply hreply
    cases hstatus
  | passed _ _ _ _ _ hrevoked => exact hrevoked
  | reported _ _ _ _ hrevoked => exact hrevoked
  | raised => cases hreply

/-- Rules come from the session of the device. -/
theorem DurableHandled.rules {rules : Json} (h : DurableHandled p t m r t' m' outcome)
    (hreply : outcome = .ok reply) (hrules : reply.body.get "rules" = some rules) :
    ∃ (session : Session) (raw : Bytes) (rule : Json), m.sessions r.device = some session ∧
      raw ∈ session.snapshot.rules ∧ p.codec.loads (.bytes raw) = .ok rule ∧ rules = .arr [rule] := by
  cases h with
  | dropped | reported =>
    obtain rfl := Except.ok.inj hreply
    cases hrules
  | refused _ _ _ hrefused =>
    obtain rfl := hrefused reply hreply
    cases hrules
  | passed seen _ _ hsessions _ _ hhandled =>
    obtain ⟨session, raw, rule, hsession, hpage⟩ := hhandled.rules hreply hrules
    exact ⟨session, raw, rule, hsessions ▸ hsession, hpage⟩
  | raised => cases hreply

/-- 503 leaves the tables and drops the session. -/
theorem DurableHandled.unavailable (h : DurableHandled p t m r t' m' outcome) (hreply : outcome = .ok reply)
    (hstatus : reply.status = 503) : t' = t ∧ m'.sessions r.device = none := by
  cases h with
  | dropped _ hsessions => exact ⟨rfl, by rw [hsessions, if_pos rfl]⟩
  | refused _ _ _ hrefused =>
    obtain rfl := hrefused reply hreply
    cases hstatus
  | passed _ _ _ _ _ _ _ _ havailable => exact absurd hstatus (havailable reply hreply)
  | reported =>
    obtain rfl := Except.ok.inj hreply
    cases hstatus
  | raised => cases hreply

end Outcomes

/-- In every run, whatever fails, restarts or is published and revoked elsewhere: a postflight is
answered with 200 only when its report is in the tables and every rule has been served in the same
session; a device that was revoked gets no 200; rules are not behind the report of the device; and
503 leaves the tables as they are and the device without a session. -/
theorem durable_model_safety (i : Interpreter) (tables : Tables) (happenings : List Happening)
    (own : Interpreter) (m : Model) (r : Request) (faults : Faults) :
    let w := World.after i tables happenings
    let answered := durableHandle own.process w.tables m r faults
    w.running = some (own, m) → ∀ reply, answered.2.2 = .ok reply →
      (r.stage = .postflight → reply.status = 200 → ∃ session, m.sessions r.device = some session ∧
        (answered.1.device r.device.name).2 = session.snapshot.revision ∧
        ∀ k < session.snapshot.rules.length, PageServed i tables r.device k happenings) ∧
      (∀ earlier, earlier <:+ happenings →
        ((World.after i tables earlier).tables.device r.device.name).1 = true → reply.status ≠ 200) ∧
      (∀ rules, reply.body.get "rules" = some rules →
        ∃ (session : Session) (raw : Bytes) (rule : Json), m.sessions r.device = some session ∧
          raw ∈ session.snapshot.rules ∧ own.process.codec.loads (.bytes raw) = .ok rule ∧
          rules = .arr [rule] ∧ (w.tables.device r.device.name).2 ≤ session.snapshot.revision) ∧
      (reply.status = 503 → answered.1 = w.tables ∧ answered.2.1.sessions r.device = none) := by
  intro w answered hrunning reply hreply
  have hsound : Sound i tables happenings := after_sound happenings
  have hhandled := durableHandle_handled own.process w.tables m r faults
  refine ⟨fun hstage hstatus => ?_, fun earlier hearlier hrevoked hstatus => ?_, fun rules hrules => ?_,
    fun hstatus => hhandled.unavailable hreply hstatus⟩
  · obtain ⟨session, hsession, hserved, hreported⟩ := hhandled.reports hreply hstage hstatus
    refine ⟨session, hsession, hreported, fun k hk => ?_⟩
    apply hsound.served own m r.device session hrunning hsession
    rw [hserved]
    exact Finset.mem_range.mpr hk
  · obtain ⟨later, rfl⟩ := hearlier
    have hactive : (w.tables.device r.device.name).1 = false := hhandled.active hreply hstatus
    have hextends : (World.after i tables earlier).tables.Extends w.tables := after_extends later earlier
    rw [hextends.revoked _ hrevoked, hrevoked] at hactive
    cases hactive
  · obtain ⟨session, raw, rule, hsession, hraw, hrule, hpage⟩ := hhandled.rules hreply hrules
    exact ⟨session, raw, rule, hsession, hraw, hrule, hpage,
      hsound.behind own m r.device session hrunning hsession⟩

/-- One rule is published, a process starts, and the device takes it. -/
def sampleHappenings : List Happening :=
  [.request (sampleRequest .ruledownload .a [] 0) ⟨false, false, false⟩,
    .request (sampleRequest .preflight .a [] 1) ⟨false, false, false⟩,
    .restart ⟨sampleInterpreter.mac, sampleInterpreter.mac_size⟩ [] false,
    .publishElsewhere (some ⟨.int 7, some [.bytes (sampleRule "one")], .str (text "synthetic-only")⟩)]

def sampleReport : Request :=
  sampleRequest .postflight .a [(text "rules_received", .int 1), (text "rules_processed", .int 1),
    (text "syncType", .str (text "CLEAN"))] 0

/-- The answer to the report of the device. -/
def sampleAnswer (running : Interpreter × Model) : Tables × Model × Except Failure Reply :=
  durableHandle running.1.process (World.after sampleInterpreter .empty sampleHappenings).tables running.2
    sampleReport ⟨false, false, false⟩

theorem sampleAnswer_accepted :
    ∃ own m reply, (World.after sampleInterpreter .empty sampleHappenings).running = some (own, m) ∧
      (sampleAnswer (own, m)).2.2 = .ok reply ∧ reply.status = 200 := by
  have hstatus : ((World.after sampleInterpreter .empty sampleHappenings).running.bind fun running =>
      (sampleAnswer running).2.2.toOption.map Reply.status) = some 200 := by
    decide +kernel
  obtain ⟨⟨own, m⟩, hrunning, hanswer⟩ := Option.bind_eq_some_iff.mp hstatus
  obtain ⟨reply, hreply, hstatus⟩ := Option.map_eq_some_iff.mp hanswer
  refine ⟨own, m, reply, hrunning, ?_, hstatus⟩
  cases hanswered : (sampleAnswer (own, m)).2.2 with
  | error failure => simp [hanswered, Except.toOption] at hreply
  | ok answer => simpa [hanswered, Except.toOption] using hreply

theorem durable_model_safety_sample :
    ∃ own m session, (World.after sampleInterpreter .empty sampleHappenings).running = some (own, m) ∧
      m.sessions .a = some session ∧
      ((sampleAnswer (own, m)).1.device Device.a.name).2 = session.snapshot.revision ∧
      ∀ k < session.snapshot.rules.length, PageServed sampleInterpreter .empty .a k sampleHappenings := by
  obtain ⟨own, m, reply, hrunning, hreply, hstatus⟩ := sampleAnswer_accepted
  have hsafe := durable_model_safety sampleInterpreter .empty sampleHappenings own m sampleReport
    ⟨false, false, false⟩
  unfold sampleAnswer at hreply ⊢
  -- Without this the unifier evaluates the run.
  generalize World.after sampleInterpreter .empty sampleHappenings = w at hsafe hrunning hreply ⊢
  obtain ⟨session, hsession, hreported, hpages⟩ := (hsafe hrunning reply hreply).1 rfl hstatus
  exact ⟨own, m, session, hrunning, hsession, hreported, hpages⟩

end Sync
