import AzdSanta.Sync.Durable
import AzdSanta.Sync.Sessions

/-! `DurableModel`: the sessions of a `Model` over the snapshots and reports of a `State`. -/
namespace Sync
open Checks Python Transactions

/-- `bool(value)`. -/
def Json.truthy : Json → Bool
  | .null => false
  | .bool b => b
  | .int n => n ≠ 0
  | .float repr => repr ≠ text "0.0" && repr ≠ text "-0.0"
  | .str s => s ≠ []
  | .arr items => !items.isEmpty
  | .obj members => !members.isEmpty

/-- The value as an argument of `Snapshot.fixture`. -/
def toPyValue : Json → PyValue
  | .int n => .int n
  | .bool b => .bool b
  | .str s => .str s
  | value => .other (Json.truthy value)

/-- What iterating over the value gives; `none` is a `TypeError`. -/
def elements : Json → Option (List Json)
  | .arr items => some items
  | .obj members => some (members.map fun m => .str m.1)
  | .str s => some (s.map fun c => .str [c])
  | _ => none

/-- `value[key]`. -/
def subscript (value : Json) (key : String) : Except Failure Json :=
  match value with
  | .obj members =>
    match Dict.get members key with
    | some member => pure member
    | none => throw .lookupError
  | _ => throw .typeError

/-- `SELECT revision,payload,digest FROM snapshots ORDER BY revision DESC LIMIT 1`. -/
def Tables.latest (t : Tables) : Option Row := t.snapshots.find? fun row => row.revision = t.maximum

/-- The part of `State.snapshot` inside its `try`. -/
def readRow (p : Process) (row : Row) : Except Failure Fixture := do
  let value ← p.codec.loads (.bytes row.payload)
  let revision ← subscript value "revision"
  if ¬ equalsInt p row.revision revision then throw (.valueError "")
  let rules ← subscript value "rules"
  if ¬ Json.truthy rules then throw (.valueError "")
  let payload ← p.codec.canonical value
  if payload ≠ row.payload then throw (.valueError "")
  let approval ← subscript value "approval"
  match elements rules with
  | some items => fixture p.codec (toPyValue revision) items (toPyValue approval)
  | none => throw .typeError

/-- `State.snapshot`. -/
def stateSnapshot (p : Process) (t : Tables) : Except Failure Fixture :=
  match t.latest with
  | none => throw (.valueError "missing or damaged fixture snapshot")
  | some row =>
    if p.codec.sha256 row.payload ≠ row.digest then
      throw (.valueError "missing or damaged fixture snapshot")
    else match readRow p row with
      | .ok snapshot => pure snapshot
      | .error (.valueError _) | .error .typeError | .error .lookupError =>
        throw (.valueError "invalid fixture snapshot")
      | .error failure => throw failure

/-- The SQLite operations of a call that fail; they have no effect then. -/
structure Faults where
  device : Bool
  snapshot : Bool
  report : Bool

/-- `except (sqlite3.Error, ValueError)`. -/
def Failure.caught : Failure → Bool
  | .valueError _ | .integrityError | .operationalError => true
  | _ => false

/-- A transaction of the state, or its failure. -/
def runCall (p : Process) (fault : Bool) (call : Call) (t : Tables) : Except Failure Tables :=
  if fault then throw .operationalError else serial (Call.body p.codec) call t

/-- The answer to a failure that is caught: no session is left. -/
def unavailable (t : Tables) (m : Model) (device : Device) : Tables × Model × Except Failure Reply :=
  (t, m.setSession device none, .ok (.bare 503))

/-- The snapshot that the superclass sees. -/
def currentSnapshot (p : Process) (t : Tables) (m : Model) (r : Request) (faults : Faults) :
    Except Failure Fixture :=
  if r.stage ≠ .preflight then pure m.snapshot
  else if faults.snapshot then throw .operationalError
  else stateSnapshot p t

/-- The model with the report of the device, as `handle` sets it. -/
def withReported (m : Model) (device : Device) (reported : ℤ) : Model :=
  { m with acknowledged := Function.update m.acknowledged device reported }

/-- `DurableModel.handle`. -/
def durableHandle (p : Process) (t : Tables) (m : Model) (r : Request) (faults : Faults) :
    Tables × Model × Except Failure Reply :=
  if faults.device then unavailable t m r.device
  else if (t.device r.device.name).1 then (t, m, .ok (.bare 403))
  else
    let seen := withReported m r.device (t.device r.device.name).2
    match currentSnapshot p t seen r faults with
    | .error failure =>
      if failure.caught then unavailable t seen r.device else (t, seen, .error failure)
    | .ok snapshot =>
      match Model.handle p { seen with snapshot := snapshot } r with
      | (next, .error failure) =>
        if failure.caught then unavailable t next r.device else (t, next, .error failure)
      | (next, .ok reply) =>
        if r.stage = .postflight ∧ reply.status = 200 then
          match runCall p faults.report
              (.reportFixture (.str r.device.name) (.int (next.acknowledged r.device))) t with
          | .ok t' => (t', next, .ok reply)
          | .error failure =>
            -- The acknowledgement of the superclass is taken back.
            if failure.caught then
              unavailable t { next with acknowledged := seen.acknowledged } r.device
            else (t, next, .error failure)
        else (t, next, .ok reply)

/-- What a request can do to the tables, the sessions and the answer. -/
inductive DurableHandled (p : Process) (t : Tables) (m : Model) (r : Request) :
    Tables → Model → Except Failure Reply → Prop
  | dropped (m' : Model) (hsessions : ∀ d, m'.sessions d = if d = r.device then none else m.sessions d) :
      DurableHandled p t m r t m' (.ok (.bare 503))
  | refused (m' : Model) (outcome : Except Failure Reply) (hsessions : m'.sessions = m.sessions)
      (hrefused : ∀ reply, outcome = .ok reply → reply = .bare 403) : DurableHandled p t m r t m' outcome
  | passed (seen m' : Model) (outcome : Except Failure Reply) (hsessions : seen.sessions = m.sessions)
      (hreported : seen.acknowledged r.device = (t.device r.device.name).2)
      (hrevoked : (t.device r.device.name).1 = false) (hhandled : Handled p seen r m' outcome)
      (hreport : ∀ reply, outcome = .ok reply → r.stage = .postflight → reply.status ≠ 200)
      (havailable : ∀ reply, outcome = .ok reply → reply.status ≠ 503)
      (huncaught : ∀ failure, outcome = .error failure → failure.caught = false) :
      DurableHandled p t m r t m' outcome
  | reported (session : Session) (t' : Tables) (m' : Model) (hstage : r.stage = .postflight)
      (hrevoked : (t.device r.device.name).1 = false) (hsession : m.sessions r.device = some session)
      (hserved : session.served = Finset.range session.snapshot.rules.length)
      (hserial : serial (Call.body p.codec)
        (.reportFixture (.str r.device.name) (.int session.snapshot.revision)) t = .ok t')
      (hsessions : ∀ d, m'.sessions d =
        if d = r.device then some { session with acked := true } else m.sessions d) :
      DurableHandled p t m r t' m' (.ok (.bare 200))
  /-- The report fails in a way that is not caught. -/
  | raised (session : Session) (m' : Model) (failure : Failure)
      (hsession : m.sessions r.device = some session)
      (hsessions : ∀ d, m'.sessions d =
        if d = r.device then some { session with acked := true } else m.sessions d) :
      DurableHandled p t m r t m' (.error failure)

section Handle
variable {p : Process} {t : Tables} {m : Model} {r : Request} {faults : Faults}

theorem fixture_nonempty {revision : PyValue} {rules : List Json} {approval : PyValue} {snapshot : Fixture}
    (h : fixture p.codec revision rules approval = .ok snapshot) :
    snapshot.rules.length = rules.length ∧ snapshot.approval.truthy = true := by
  cases revision with
  | int n =>
    simp only [fixture, throw_eq_error, error_bind, pure_eq_ok, check_eq_ok, bind_eq_ok, mapM_eq_ok,
      Except.ok.injEq, not_or, not_not] at h
    obtain ⟨⟨-, -, happroval⟩, -, -, encoded, hencoded, rfl⟩ := h
    exact ⟨hencoded.length_eq.symm, happroval⟩
  | bool | str | bytes | other => cases h

theorem elements_ne_nil {value : Json} {items : List Json} (htruthy : Json.truthy value = true)
    (h : elements value = some items) : items ≠ [] := by
  cases value with
  | arr | obj | str =>
    obtain rfl := Option.some.inj h
    simpa [Json.truthy] using htruthy
  | null | bool | int | float => cases h

/-- A snapshot of the state has rules and an approval. -/
theorem stateSnapshot_nonempty {snapshot : Fixture} (h : stateSnapshot p t = .ok snapshot) :
    snapshot.rules ≠ [] ∧ snapshot.approval.truthy = true := by
  unfold stateSnapshot at h
  split at h
  · cases h
  · split_ifs at h
    split at h
    · next read hread =>
      obtain rfl := Except.ok.inj h
      simp only [readRow, throw_eq_error, error_bind, check_eq_ok, bind_eq_ok, not_not] at hread
      obtain ⟨value, -, revision, -, -, rules, -, htruthy, payload, -, -, approval, -, hfixture⟩ := hread
      split at hfixture
      · next items hitems =>
        obtain ⟨hlength, happroval⟩ := fixture_nonempty hfixture
        refine ⟨?_, happroval⟩
        rw [← List.length_pos_iff, hlength]
        exact List.length_pos_of_ne_nil (elements_ne_nil htruthy hitems)
      · cases hfixture
    all_goals cases h

/-- The superclass answers 503 only for an empty snapshot. -/
theorem Handled.available {m' : Model} {outcome : Except Failure Reply} {reply : Reply}
    (h : Handled p m r m' outcome) (hreply : outcome = .ok reply)
    (hsnapshot : r.stage = .preflight → m.snapshot.rules ≠ [] ∧ m.snapshot.approval.truthy = true) :
    reply.status ≠ 503 := by
  intro hstatus
  cases h with
  | refused _ _ hempty =>
    obtain ⟨hstage, hnone⟩ := hempty reply hreply hstatus
    obtain ⟨hrules, happroval⟩ := hsnapshot hstage
    exact hnone.elim hrules fun h => h happroval
  | kept | pinned | uploaded | acknowledged =>
    obtain rfl := Except.ok.inj hreply
    exact absurd hstatus (by decide)
  | served =>
    obtain ⟨next, -, hpage⟩ := bind_eq_ok.mp hreply
    obtain rfl := Except.ok.inj hpage
    norm_num at hstatus

theorem unavailable_handled {seen : Model} (hsessions : ∀ d, d ≠ r.device → seen.sessions d = m.sessions d) :
    DurableHandled p t m r (unavailable t seen r.device).1 (unavailable t seen r.device).2.1
      (unavailable t seen r.device).2.2 := by
  apply DurableHandled.dropped
  intro d
  rw [unavailable, setSession_sessions]
  split_ifs with hd
  · rfl
  · exact hsessions d hd

/-- An accepted postflight of the superclass. -/
theorem Handled.accepted {m' : Model} {outcome : Except Failure Reply} {reply : Reply}
    (h : Handled p m r m' outcome) (hreply : outcome = .ok reply) (hstage : r.stage = .postflight)
    (hstatus : reply.status = 200) :
    ∃ session, m.sessions r.device = some session ∧ reply = .bare 200 ∧
      session.served = Finset.range session.snapshot.rules.length ∧
      m'.acknowledged r.device = session.snapshot.revision ∧
      ∀ d, m'.sessions d = if d = r.device then some { session with acked := true } else m.sessions d := by
  cases h with
  | refused _ hrefused => exact absurd hstatus (hrefused reply hreply).1
  | kept _ hother | pinned hother | uploaded _ hother | served _ _ _ _ hother =>
    rw [hstage] at hother
    cases hother
  | acknowledged session _ hsession _ hserved =>
    exact ⟨session, hsession, (Except.ok.inj hreply).symm, hserved, by simp, fun d => by simp⟩

theorem durableHandle_handled (p : Process) (t : Tables) (m : Model) (r : Request) (faults : Faults) :
    DurableHandled p t m r (durableHandle p t m r faults).1 (durableHandle p t m r faults).2.1
      (durableHandle p t m r faults).2.2 := by
  unfold durableHandle
  split_ifs with hfault hrevoked
  · exact unavailable_handled fun _ _ => rfl
  · exact .refused m _ rfl fun reply hreply => (Except.ok.inj hreply).symm
  · rw [Bool.not_eq_true] at hrevoked
    dsimp only
    split
    · split_ifs
      · exact unavailable_handled fun _ _ => rfl
      · exact .refused _ _ rfl (by rintro reply ⟨⟩)
    · next snapshot hsnapshot =>
      generalize hseen : { withReported m r.device (t.device r.device.name).2 with snapshot := snapshot } = seen
      have hsessions : seen.sessions = m.sessions := by
        rw [← hseen]
        rfl
      have hreported : seen.acknowledged r.device = (t.device r.device.name).2 := by
        rw [← hseen]
        exact Function.update_self ..
      have hstep := handle_handled p seen r
      split
      · next next failure heq =>
        rw [heq] at hstep
        split_ifs with hcaught
        · refine unavailable_handled fun d hd => ?_
          rw [hstep.frame hd, hsessions]
        · refine .passed seen next _ hsessions hreported hrevoked hstep (by rintro reply ⟨⟩)
            (by rintro reply ⟨⟩) ?_
          rintro failure ⟨rfl⟩
          exact Bool.not_eq_true _ ▸ hcaught
      · next next reply heq =>
        rw [heq] at hstep
        split_ifs with haccepted
        · obtain ⟨session, hsession, rfl, hserved, hacknowledged, hnext⟩ :=
            hstep.accepted rfl haccepted.1 haccepted.2
          dsimp only at hacknowledged hnext
          rw [hsessions] at hsession
          simp only [hsessions] at hnext
          rw [hacknowledged]
          split
          · next t' hreport =>
            have hserial := (check_eq_ok.mp hreport).2
            exact .reported session t' next haccepted.1 hrevoked hsession hserved hserial hnext
          · split_ifs
            · refine unavailable_handled fun d hd => ?_
              rw [hnext, if_neg hd]
            · exact .raised session next _ hsession hnext
        · refine .passed seen next _ hsessions hreported hrevoked hstep ?_ ?_ (by rintro failure ⟨⟩)
          · rintro answer ⟨rfl⟩ hstage hstatus
            exact haccepted ⟨hstage, hstatus⟩
          · intro answer hanswer
            refine hstep.available hanswer fun hstage => ?_
            rw [← hseen]
            simp only [currentSnapshot, hstage, ne_eq, not_true_eq_false, if_false, throw_eq_error,
              check_eq_ok] at hsnapshot
            exact stateSnapshot_nonempty hsnapshot.2

end Handle

end Sync
