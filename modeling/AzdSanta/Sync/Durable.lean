import AzdSanta.Common.Transactions
import AzdSanta.Sync.Snapshot

/-! `State`: published snapshots and device reports in one SQLite file, used through any number
of connections. -/
namespace Sync
open Checks Transactions Python

/-- A row of `snapshots`. -/
structure Row where
  revision : ℤ
  payload : Bytes
  digest : Text
  deriving DecidableEq

/-- A row of `devices`. -/
structure DeviceRow where
  device : Text
  revoked : Bool
  reported : ℤ
  deriving DecidableEq

/-- Both tables, with their rows in the order of insertion. -/
structure Tables where
  snapshots : List Row
  devices : List DeviceRow
  deriving DecidableEq

abbrev Statement := Tables → Except Failure Tables

/-- The values SQLite can bind as INTEGER. -/
def bindable (n : ℤ) : Bool := -2 ^ 63 ≤ n && n < 2 ^ 63

/-- `SELECT COALESCE(MAX(revision),0) FROM snapshots`. -/
def Tables.maximum (t : Tables) : ℤ := (t.snapshots.map Row.revision).max?.getD 0

/-- `State.device`, on a checked name. -/
def Tables.device (t : Tables) (device : Text) : Bool × ℤ :=
  match t.devices.find? fun row => row.device = device with
  | some row => (row.revoked, row.reported)
  | none => (false, 0)

/-- `INSERT INTO devices ... ON CONFLICT(device) DO UPDATE`. -/
def Tables.upsert (t : Tables) (row : DeviceRow) (update : DeviceRow → DeviceRow) : Tables :=
  if t.devices.any fun old => old.device = row.device then
    { t with devices := t.devices.map fun old => if old.device = row.device then update old else old }
  else { t with devices := t.devices ++ [row] }

/-- `State.device_id`. -/
def deviceId : PyValue → Except Failure Text
  | .str s =>
    if s = text "device-a" ∨ s = text "device-b" then pure s
    else throw (.valueError "synthetic device required")
  | _ => throw (.valueError "synthetic device required")

/-- The calls of a `State`; `none` is a value that is no `Snapshot`. -/
inductive Call where
  | publishFixture (snapshot : Option Snapshot)
  | revokeFixture (device : PyValue)
  | reportFixture (device revision : PyValue)

/-- `publish_fixture` up to its transaction. -/
def publishRow (codec : Codec) : Option Snapshot → Except Failure Row
  | none => throw (.valueError "synthetic snapshot required")
  | some snapshot =>
    match snapshot.rules with
    | none => throw .typeError
    | some raw => do
      let rules ← raw.mapM codec.loads
      let checked ← fixture codec snapshot.revision rules snapshot.approval
      match snapshot.approval with
      | .str approval => do
        if rules.isEmpty ∨ approval.length > 128 then
          throw (.valueError "nonempty bounded fixture required")
        let payload ← codec.canonical (.obj [(text "revision", .int checked.revision),
          (text "rules", .arr rules), (text "approval", .str approval)])
        if payload.length > 65536 then throw (.valueError "fixture too large")
        return ⟨checked.revision, payload, codec.sha256 payload⟩
      | _ => throw (.valueError "nonempty bounded fixture required")

def checkIncreasing (row : Row) : Statement := fun t =>
  if row.revision ≤ t.maximum then throw (.valueError "revision must increase") else pure t

def checkRoom : Statement := fun t =>
  if t.snapshots.length ≥ 100 then throw (.valueError "fixture history full") else pure t

def insertSnapshot (row : Row) : Statement := fun t =>
  if ¬ bindable row.revision then throw .overflowError
  else if row.revision ∈ t.snapshots.map Row.revision then throw .integrityError
  else pure { t with snapshots := t.snapshots ++ [row] }

def upsertRevoked (device : PyValue) : Statement := fun t => do
  let d ← deviceId device
  return t.upsert ⟨d, true, 0⟩ fun row => { row with revoked := true }

def checkReport (device : PyValue) (revision : ℤ) : Statement := fun t => do
  let d ← deviceId device
  if (t.device d).1 ∨ revision < (t.device d).2 then
    throw (.valueError "revoked or regressing report")
  return t

def checkKnown (revision : ℤ) : Statement := fun t =>
  if ¬ bindable revision then throw .overflowError
  else if revision ∉ t.snapshots.map Row.revision then throw (.valueError "unknown reported revision")
  else pure t

def upsertReported (device : PyValue) (revision : ℤ) : Statement := fun t =>
  match device with
  | .str d => pure (t.upsert ⟨d, false, revision⟩ fun row => { row with reported := revision })
  | _ => throw .typeError

/-- The checks of a call in front of its transaction, and the transaction. -/
def Call.body (codec : Codec) : Call → Except Failure (List Statement)
  | .publishFixture snapshot => do
    let row ← publishRow codec snapshot
    return [checkIncreasing row, checkRoom, insertSnapshot row]
  | .revokeFixture device => pure [upsertRevoked device]
  | .reportFixture device revision =>
    match revision with
    | .int n =>
      if n < 1 then throw (.valueError "invalid reported revision")
      else pure [checkReport device n, checkKnown n, upsertReported device n]
    | _ => throw (.valueError "invalid reported revision")

/-- The tables of a new file. -/
def Tables.empty : Tables := ⟨[], []⟩

/-- The file after `actions` of its connections, newest first. -/
def stateAfter (codec : Codec) (actions : List (Action Failure Call)) : Database Tables Failure Call :=
  .after (Call.body codec) (.initial .empty) actions

/-- What an accepted call writes. -/
inductive Tables.Write (t : Tables) : Tables → Prop
  | publish (row : Row) (hmaximum : t.maximum < row.revision) (hroom : t.snapshots.length < 100) :
      t.Write { t with snapshots := t.snapshots ++ [row] }
  | revoke (d : Text) : t.Write (t.upsert ⟨d, true, 0⟩ fun row => { row with revoked := true })
  | report (d : Text) (n : ℤ) (hrevoked : (t.device d).1 = false) (hprevious : (t.device d).2 ≤ n)
      (hknown : n ∈ t.snapshots.map Row.revision) :
      t.Write (t.upsert ⟨d, false, n⟩ fun row => { row with reported := n })

section Writes
variable {codec : Codec} {t t' : Tables} {d : Text}

theorem deviceId_eq_ok {device : PyValue} (h : deviceId device = .ok d) : device = .str d := by
  cases device with
  | str s =>
    simp only [deviceId] at h
    split_ifs at h
    rw [Except.ok.inj h]
  | int | bool | bytes | other => cases h

theorem serial_publish {snapshot : Option Snapshot}
    (h : serial (Call.body codec) (.publishFixture snapshot) t = .ok t') :
    ∃ row, t.maximum < row.revision ∧ t.snapshots.length < 100 ∧ bindable row.revision = true ∧
      t' = { t with snapshots := t.snapshots ++ [row] } := by
  obtain ⟨statements, hbody, hrun⟩ := bind_eq_ok.mp h
  obtain ⟨row, -, hstatements⟩ := bind_eq_ok.mp hbody
  obtain rfl := Except.ok.inj hstatements
  simp only [runAll, bind_eq_ok, checkIncreasing, checkRoom, insertSnapshot, throw_eq_error,
    pure_eq_ok, check_eq_ok, Except.ok.injEq] at hrun
  obtain ⟨_, ⟨hmaximum, rfl⟩, _, ⟨hroom, rfl⟩, _, ⟨hbindable, -, rfl⟩, rfl⟩ := hrun
  exact ⟨row, not_le.mp hmaximum, not_le.mp hroom, not_not.mp hbindable, rfl⟩

theorem serial_revoke {device : PyValue} (h : serial (Call.body codec) (.revokeFixture device) t = .ok t') :
    ∃ d, device = .str d ∧ t' = t.upsert ⟨d, true, 0⟩ fun row => { row with revoked := true } := by
  obtain ⟨statements, hbody, hrun⟩ := bind_eq_ok.mp h
  obtain rfl := Except.ok.inj hbody
  simp only [runAll, bind_eq_ok, upsertRevoked, pure_eq_ok, Except.ok.injEq] at hrun
  obtain ⟨_, ⟨d, hd, rfl⟩, rfl⟩ := hrun
  exact ⟨d, deviceId_eq_ok hd, rfl⟩

theorem serial_report {device revision : PyValue}
    (h : serial (Call.body codec) (.reportFixture device revision) t = .ok t') :
    ∃ d n, device = .str d ∧ revision = .int n ∧ (t.device d).1 = false ∧ (t.device d).2 ≤ n ∧
      n ∈ t.snapshots.map Row.revision ∧
      t' = t.upsert ⟨d, false, n⟩ fun row => { row with reported := n } := by
  obtain ⟨statements, hbody, hrun⟩ := bind_eq_ok.mp h
  cases revision with
  | int n =>
    simp only [Call.body, throw_eq_error, pure_eq_ok, check_eq_ok, Except.ok.injEq] at hbody
    obtain ⟨-, rfl⟩ := hbody
    simp only [runAll, bind_eq_ok, checkReport, checkKnown, throw_eq_error, error_bind, pure_eq_ok,
      check_eq_ok, Except.ok.injEq] at hrun
    obtain ⟨_, ⟨d, hd, hallowed, rfl⟩, _, ⟨-, hknown, rfl⟩, _, hupsert, rfl⟩ := hrun
    have hdevice := deviceId_eq_ok hd
    rw [hdevice] at hupsert
    obtain rfl := Except.ok.inj hupsert
    rw [not_or, not_lt, Bool.not_eq_true] at hallowed
    exact ⟨d, n, hdevice, rfl, hallowed.1, hallowed.2, not_not.mp hknown, rfl⟩
  | bool | str | bytes | other => cases hbody

theorem serial_write {k : Call} (h : serial (Call.body codec) k t = .ok t') : t.Write t' := by
  cases k with
  | publishFixture snapshot =>
    obtain ⟨row, hmaximum, hroom, -, rfl⟩ := serial_publish h
    exact .publish row hmaximum hroom
  | revokeFixture device =>
    obtain ⟨d, -, rfl⟩ := serial_revoke h
    exact .revoke d
  | reportFixture device revision =>
    obtain ⟨d, n, -, -, hrevoked, hprevious, hknown, rfl⟩ := serial_report h
    exact .report d n hrevoked hprevious hknown

/-- An upsert finds the same rows as before, updated when they are of its device. -/
theorem upsert_find {row : DeviceRow} {update : DeviceRow → DeviceRow}
    (hupdate : ∀ old, (update old).device = old.device) (d : Text) :
    (t.upsert row update).devices.find? (fun old => old.device = d) =
      match t.devices.find? fun old => old.device = d with
      | some old => some (if old.device = row.device then update old else old)
      | none => if row.device = d then some row else none := by
  have hkept : ((fun old : DeviceRow => decide (old.device = d)) ∘ fun old =>
      if old.device = row.device then update old else old) = fun old => decide (old.device = d) := by
    funext old
    simp only [Function.comp_apply]
    split_ifs <;> simp [hupdate]
  unfold Tables.upsert
  split
  · next hany =>
    simp only [List.find?_map, hkept]
    cases hfind : t.devices.find? fun old => decide (old.device = d) with
    | some old => rfl
    | none =>
      rw [Option.map_none, if_neg]
      rintro rfl
      obtain ⟨old, hold, hdevice⟩ := List.any_eq_true.mp hany
      exact List.find?_eq_none.mp hfind old hold hdevice
  · next hnone =>
    have hnew (old : DeviceRow) (hold : old ∈ t.devices) : old.device ≠ row.device := by
      intro heq
      exact hnone (List.any_eq_true.mpr ⟨old, hold, by simpa using heq⟩)
    simp only [List.find?_append]
    cases hfind : t.devices.find? fun old => decide (old.device = d) with
    | some old => simp [hnew old (List.mem_of_find?_eq_some hfind)]
    | none => simp [List.find?_singleton]

/-- An upsert that changes the value of its device by `change`, also the value of a new row. -/
theorem upsert_device (t : Tables) (row : DeviceRow) (update : DeviceRow → DeviceRow)
    (change : Bool × ℤ → Bool × ℤ) (hupdate : ∀ old, (update old).device = old.device)
    (hold : ∀ old, ((update old).revoked, (update old).reported) = change (old.revoked, old.reported))
    (hnew : (row.revoked, row.reported) = change (false, 0)) (d : Text) :
    (t.upsert row update).device d = if d = row.device then change (t.device d) else t.device d := by
  simp only [Tables.device, upsert_find hupdate]
  cases hfind : t.devices.find? fun old => decide (old.device = d) with
  | some old =>
    have hdevice : old.device = d := by simpa using List.find?_some hfind
    by_cases hd : d = row.device
    · simp only [hdevice, if_pos hd]
      exact hold old
    · simp only [hdevice, if_neg hd]
  | none =>
    by_cases hd : d = row.device
    · simp only [if_pos hd, if_pos hd.symm]
      exact hnew
    · simp only [if_neg hd, if_neg (Ne.symm hd)]

theorem revoke_device (t : Tables) (d d' : Text) :
    (t.upsert ⟨d, true, 0⟩ fun row => { row with revoked := true }).device d' =
      if d' = d then (true, (t.device d').2) else t.device d' :=
  upsert_device t ⟨d, true, 0⟩ (fun row => { row with revoked := true }) (fun v => (true, v.2))
    (fun _ => rfl) (fun _ => rfl) rfl d'

theorem report_device (t : Tables) (d d' : Text) (n : ℤ) :
    (t.upsert ⟨d, false, n⟩ fun row => { row with reported := n }).device d' =
      if d' = d then ((t.device d').1, n) else t.device d' :=
  upsert_device t ⟨d, false, n⟩ (fun row => { row with reported := n }) (fun v => (v.1, n))
    (fun _ => rfl) (fun _ => rfl) rfl d'

theorem upsert_snapshots (t : Tables) (row : DeviceRow) (update : DeviceRow → DeviceRow) :
    (t.upsert row update).snapshots = t.snapshots := by
  unfold Tables.upsert
  split <;> rfl

/-- What holds of the tables at every moment. -/
structure Tables.Valid (t : Tables) : Prop where
  increasing : t.snapshots.Pairwise fun a b => a.revision < b.revision
  bounded : t.snapshots.length ≤ 100
  reported : ∀ d, (t.device d).2 = 0 ∨ ∃ row ∈ t.snapshots, row.revision = (t.device d).2

/-- What holds between the tables at two moments. -/
structure Tables.Extends (t t' : Tables) : Prop where
  rows : t.snapshots <+: t'.snapshots
  reported : ∀ d, (t.device d).2 ≤ (t'.device d).2
  revoked : ∀ d, (t.device d).1 = true → t'.device d = t.device d

theorem le_maximum {row : Row} (hrow : row ∈ t.snapshots) : row.revision ≤ t.maximum := by
  have hmem : row.revision ∈ t.snapshots.map Row.revision := List.mem_map_of_mem hrow
  unfold Tables.maximum
  cases hmax : (t.snapshots.map Row.revision).max? with
  | none => simp [List.max?_eq_none_iff.mp hmax] at hmem
  | some m => exact (List.max?_eq_some_iff.mp hmax).2 _ hmem

theorem Tables.Write.valid (hwrite : t.Write t') (h : t.Valid) : t'.Valid := by
  cases hwrite with
  | publish row hmaximum hroom =>
    refine ⟨?_, by simpa using hroom, fun d => ?_⟩
    · refine List.pairwise_append.mpr ⟨h.increasing, List.pairwise_singleton _ _, fun a ha b hb => ?_⟩
      obtain rfl := List.mem_singleton.mp hb
      exact (le_maximum ha).trans_lt hmaximum
    · rcases h.reported d with hzero | ⟨old, hold, heq⟩
      · exact Or.inl hzero
      · exact Or.inr ⟨old, List.mem_append_left _ hold, heq⟩
  | revoke d =>
    refine ⟨?_, ?_, fun d' => ?_⟩
    · simpa [upsert_snapshots] using h.increasing
    · simpa [upsert_snapshots] using h.bounded
    · rw [revoke_device, upsert_snapshots]
      split_ifs <;> exact h.reported d'
  | report d n hrevoked hprevious hknown =>
    refine ⟨?_, ?_, fun d' => ?_⟩
    · simpa [upsert_snapshots] using h.increasing
    · simpa [upsert_snapshots] using h.bounded
    · rw [report_device, upsert_snapshots]
      split_ifs
      · exact Or.inr (List.mem_map.mp hknown)
      · exact h.reported d'

theorem Tables.Write.extends (hwrite : t.Write t') : t.Extends t' := by
  cases hwrite with
  | publish row hmaximum hroom => exact ⟨List.prefix_append _ _, fun _ => le_rfl, fun _ _ => rfl⟩
  | revoke d =>
    refine ⟨by rw [upsert_snapshots], fun d' => ?_, fun d' hd' => ?_⟩
    · rw [revoke_device]
      split_ifs <;> exact le_rfl
    · rw [revoke_device]
      split_ifs
      · rw [← hd']
      · rfl
  | report d n hrevoked hprevious hknown =>
    refine ⟨by rw [upsert_snapshots], fun d' => ?_, fun d' hd' => ?_⟩
    · rw [report_device]
      split_ifs with hd
      · exact hd ▸ hprevious
      · exact le_rfl
    · rw [report_device, if_neg]
      rintro rfl
      rw [hrevoked] at hd'
      cases hd'

theorem Tables.extends_refl (t : Tables) : t.Extends t :=
  ⟨List.prefix_rfl, fun _ => le_rfl, fun _ _ => rfl⟩

theorem Tables.Extends.trans {t'' : Tables} (h : t.Extends t') (h' : t'.Extends t'') : t.Extends t'' where
  rows := h.rows.trans h'.rows
  reported d := (h.reported d).trans (h'.reported d)
  revoked d hd := by
    have heq := h.revoked d hd
    rw [← heq] at hd ⊢
    exact h'.revoked d hd

theorem Tables.empty_valid : Tables.empty.Valid :=
  ⟨List.Pairwise.nil, by simp [Tables.empty], fun _ => Or.inl rfl⟩

end Writes

/-- At every moment of every run: revisions increase in commit order, rows stay as they are and
are 100 at most; a report is 0 or a stored revision and never goes back; a revocation stays and
ends the reports of its device. Tables change only in the commit of an accepted call, and are
those of the accepted calls one after another. -/
theorem durable_state (codec : Codec) (actions : List (Action Failure Call)) :
    let σ := stateAfter codec actions
    (σ.tables.snapshots.Pairwise fun a b => a.revision < b.revision) ∧
    σ.tables.snapshots.length ≤ 100 ∧
    (∀ d, (σ.tables.device d).2 = 0 ∨
      ∃ row ∈ σ.tables.snapshots, row.revision = (σ.tables.device d).2) ∧
    (∀ earlier, earlier <:+ actions →
      let before := (stateAfter codec earlier).tables
      before.snapshots <+: σ.tables.snapshots ∧
      ∀ d, (before.device d).2 ≤ (σ.tables.device d).2 ∧
        ((before.device d).1 = true → σ.tables.device d = (true, (before.device d).2))) ∧
    (∀ action, let next := σ.step (Call.body codec) action
      next.tables = σ.tables ∨ ∃ c k, action = .commit c ∧
        next.outcomes = (k, .accepted) :: σ.outcomes ∧
        serial (Call.body codec) k σ.tables = .ok next.tables) ∧
    replay (Call.body codec) .empty σ.accepted = .ok σ.tables := by
  intro σ
  have hvalid : σ.tables.Valid := Database.after_invariant Tables.empty_valid
    (fun k t t' ht hserial => (serial_write hserial).valid ht) actions
  refine ⟨hvalid.increasing, hvalid.bounded, hvalid.reported, ?_, fun action => ?_, ?_⟩
  · rintro earlier ⟨later, rfl⟩
    have hextends : (stateAfter codec earlier).tables.Extends σ.tables :=
      Database.after_related Tables.empty_valid (fun k t t' ht hserial => (serial_write hserial).valid ht)
        Tables.extends_refl (fun _ _ _ h h' => h.trans h')
        (fun k t t' _ hserial => (serial_write hserial).extends) later earlier
    refine ⟨hextends.rows, fun d => ⟨hextends.reported d, fun hd => ?_⟩⟩
    rw [hextends.revoked d hd, ← hd]
  · exact Database.step_tables Tables.empty actions action
  · exact Database.after_replay Tables.empty actions

/-- Every rule is the same blocklist entry. -/
def sampleCodec : Codec where
  loads _ := .ok (.obj [(text "identifier", .str (text "id")), (text "policy", .str (text "BLOCKLIST")),
    (text "rule_type", .str (text "BINARY"))])
  canonical _ := .ok []
  sha256 _ := []

/-- Two connections publish revision 2; the one that comes second is refused under the lock. -/
example :
    let publish := Call.publishFixture (some ⟨.int 2, some [.bytes []], .str (text "synthetic-only")⟩)
    let σ := stateAfter sampleCodec [.execute 1, .start 1, .commit 0, .execute 0, .execute 0,
      .start 1, .execute 0, .start 0, .call 1 publish, .call 0 publish]
    σ.tables = ⟨[⟨2, [], []⟩], []⟩ ∧ σ.accepted.length = 1 ∧ σ.outcomes.length = 2 := by
  decide

end Sync
