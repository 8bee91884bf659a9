import AzdSanta.Python.JsonCanonical
import AzdSanta.Sync.Readable
import AzdSanta.Sync.Uploads

/-! What `publish_fixture` has accepted is what `snapshot` returns. -/
namespace Sync
open Checks Python Transactions

/-- `float` of the `repr` of a float is that float. -/
def ReprStable (i : Interpreter) : Prop :=
  ∀ literal, Stable (.standard (i.spare + 1) i.float) (.float (i.float literal))

/-- No text of the snapshot has the halves of a pair next to each other. -/
structure Snapshot.Unsplit (codec : Codec) (snapshot : Snapshot) : Prop where
  rules : ∀ raws, snapshot.rules = some raws → ∀ raw ∈ raws, ∀ rule, codec.loads raw = .ok rule → ¬ Split rule
  approval : ∀ s, snapshot.approval = .str s → Whole s

/-- The snapshot with its rules as `canonical` writes them. -/
structure Rewritten (codec : Codec) (snapshot : Snapshot) (f : Fixture) : Prop where
  revision : snapshot.revision = .int f.revision
  approval : snapshot.approval = f.approval
  rules : ∃ raws, snapshot.rules = some raws ∧
    List.Forall₂ (fun raw encoded => ∃ rule, codec.loads raw = .ok rule ∧ codec.canonical rule = .ok encoded) raws f.rules

/-- A call of `publish_fixture`. -/
def Call.publishes : Call → Bool
  | .publishFixture _ => true
  | .revokeFixture _ | .reportFixture .. => false

/-- The value that is published. -/
def publishedValue (n : ℤ) (rules : List Json) (approval : Text) : Json :=
  .obj [(text "revision", .int n), (text "rules", .arr rules), (text "approval", .str approval)]

/-- What the row of an accepted snapshot comes from. -/
structure Publishes (codec : Codec) (snapshot : Snapshot) (row : Row) (raws : List PyValue) (rules : List Json)
    (approval : Text) (f : Fixture) : Prop where
  snapshot : snapshot = ⟨.int row.revision, some raws, .str approval⟩
  loads : List.Forall₂ (fun raw rule => codec.loads raw = .ok rule) raws rules
  checked : fixture codec (.int row.revision) rules (.str approval) = .ok f
  nonempty : rules ≠ []
  payload : codec.canonical (publishedValue row.revision rules approval) = .ok row.payload
  digest : row.digest = codec.sha256 row.payload

section Publish
variable {codec : Codec} {snapshot : Snapshot} {row : Row}

theorem publishRow_eq_ok (h : publishRow codec (some snapshot) = .ok row) :
    ∃ raws rules approval f, Publishes codec snapshot row raws rules approval f := by
  obtain ⟨revision, rules, approval⟩ := snapshot
  cases rules with
  | none => cases h
  | some raws =>
    obtain ⟨loaded, hloads, h⟩ := bind_eq_ok.mp h
    obtain ⟨f, hf, h⟩ := bind_eq_ok.mp h
    cases approval with
    | str s =>
      simp only [throw_eq_error, error_bind, pure_eq_ok, check_eq_ok, bind_eq_ok, Except.ok.injEq, not_or] at h
      obtain ⟨⟨hnonempty, -⟩, payload, hpayload, -, rfl⟩ := h
      cases revision with
      | int n =>
        obtain ⟨-, -, hrevision, -⟩ := fixture_int hf
        rw [hrevision] at hpayload
        refine ⟨raws, loaded, s, f, ?_, mapM_eq_ok.mp hloads, ?_, ?_, ?_, rfl⟩
        · rw [hrevision]
        · rwa [hrevision]
        · rintro rfl
          exact hnonempty rfl
        · rwa [hrevision]
      | bool | str | bytes | other => cases hf
    | int | bool | bytes | other => cases h

/-- An accepted `publish_fixture` puts its row behind all others. -/
theorem serial_published {call : Option Snapshot} {t t' : Tables}
    (h : serial (Call.body codec) (.publishFixture call) t = .ok t') :
    ∃ row, publishRow codec call = .ok row ∧ t.maximum < row.revision ∧
      t' = { t with snapshots := t.snapshots ++ [row] } := by
  obtain ⟨statements, hbody, hrun⟩ := bind_eq_ok.mp h
  obtain ⟨row, hrow, hstatements⟩ := bind_eq_ok.mp hbody
  obtain rfl := Except.ok.inj hstatements
  simp only [runAll, bind_eq_ok, checkIncreasing, checkRoom, insertSnapshot, throw_eq_error,
    pure_eq_ok, check_eq_ok, Except.ok.injEq] at hrun
  obtain ⟨_, ⟨hmaximum, rfl⟩, _, ⟨-, rfl⟩, _, ⟨-, -, rfl⟩, rfl⟩ := hrun
  exact ⟨row, hrow, not_le.mp hmaximum, rfl⟩

theorem serial_snapshots {k : Call} {t t' : Tables} (hk : k.publishes = false)
    (h : serial (Call.body codec) k t = .ok t') : t'.snapshots = t.snapshots := by
  cases k with
  | publishFixture => cases hk
  | revokeFixture device =>
    obtain ⟨d, -, rfl⟩ := serial_revoke h
    exact upsert_snapshots ..
  | reportFixture device revision =>
    obtain ⟨d, n, -, -, -, -, -, rfl⟩ := serial_report h
    exact upsert_snapshots ..

/-- The row that came last is the latest. -/
theorem latest_append {rows : List Row} {devices devices' : List DeviceRow}
    (h : (Tables.mk rows devices').maximum < row.revision) :
    (Tables.mk (rows ++ [row]) devices).latest = some row := by
  have hbelow : ∀ old ∈ rows, old.revision < row.revision := fun old hold =>
    (le_maximum (t := ⟨rows, devices'⟩) hold).trans_lt h
  have hmaximum : (Tables.mk (rows ++ [row]) devices).maximum = row.revision := by
    have hmax : ((rows ++ [row]).map Row.revision).max? = some row.revision := by
      rw [List.max?_eq_some_iff]
      refine ⟨by simp, fun n hn => ?_⟩
      obtain ⟨old, hold, rfl⟩ := List.mem_map.mp hn
      rcases List.mem_append.mp hold with hold | hold
      · exact (hbelow old hold).le
      · rw [List.mem_singleton.mp hold]
    rw [Tables.maximum, hmax]
    rfl
  have hnone : rows.find? (fun old => decide (old.revision = row.revision)) = none := by
    rw [List.find?_eq_none]
    intro old hold heq
    exact absurd (of_decide_eq_true heq) (hbelow old hold).ne
  rw [Tables.latest, hmaximum, List.find?_append, hnone, Option.none_or]
  simp

theorem replay_latest {later earlier : List Call} {t : Tables} {call : Option Snapshot}
    (hlater : ∀ k ∈ later, k.publishes = false)
    (h : replay (Call.body codec) .empty (later ++ .publishFixture call :: earlier) = .ok t) :
    ∃ row, publishRow codec call = .ok row ∧ t.latest = some row := by
  have hkept : ∃ row before devices', publishRow codec call = .ok row ∧
      (Tables.mk before devices').maximum < row.revision ∧ t.snapshots = before ++ [row] := by
    induction later generalizing t with
    | nil =>
      obtain ⟨before, -, hserial⟩ := bind_eq_ok.mp h
      obtain ⟨row, hrow, hmaximum, rfl⟩ := serial_published hserial
      exact ⟨row, before.snapshots, before.devices, hrow, hmaximum, rfl⟩
    | cons k later ih =>
      obtain ⟨before, hbefore, hserial⟩ := bind_eq_ok.mp h
      obtain ⟨row, rows, devices', hrow, hmaximum, hsnapshots⟩ :=
        ih (fun k hk => hlater k (List.mem_cons_of_mem _ hk)) hbefore
      refine ⟨row, rows, devices', hrow, hmaximum, ?_⟩
      rw [serial_snapshots (hlater k List.mem_cons_self) hserial, hsnapshots]
  obtain ⟨row, rows, devices', hrow, hmaximum, hsnapshots⟩ := hkept
  obtain ⟨snapshots, devices⟩ := t
  obtain rfl : snapshots = rows ++ [row] := hsnapshots
  exact ⟨row, hrow, latest_append hmaximum⟩

end Publish

section Read
variable {i : Interpreter}

theorem standard_stable (hfloat : ReprStable i) :
    LeavesFrom (.standard (i.spare + 1) i.float) (Stable (.standard (i.spare + 1) i.float)) where
  null := trivial
  bool _ := trivial
  str _ := trivial
  float literal := hfloat literal
  int _ _ _ := trivial
  constant word v d h := by
    obtain rfl := Except.ok.inj h
    refine (Json.Leaves.scalar rfl).mpr fun hnumber => absurd hnumber ?_
    split_ifs <;> decide
  pairs pairs members h m hm := by
    obtain rfl := Except.ok.inj h
    exact mem_dictPairs hm

/-- What `json.loads` returns, whatever it is given. -/
theorem loads_stable (hfloat : ReprStable i) {raw : PyValue} {rule : Json} (h : i.process.codec.loads raw = .ok rule) :
    rule.Leaves (Stable (.standard (i.spare + 1) i.float)) (i.spare + 1) ∧ ¬ Duplicate rule := by
  cases raw with
  | bytes raw =>
    have hloads := ofJson_eq_ok.mp h
    exact ⟨loadsBytes_leaves (standard_stable hfloat) hloads, loadsBytes_distinct (standard_distinct _ _) hloads⟩
  | str s =>
    have hloads := ofJson_eq_ok.mp h
    exact ⟨loads_leaves (standard_stable hfloat) hloads, loads_distinct (standard_distinct _ _) hloads⟩
  | int | bool | other => cases h

/-- `json.loads(canonical(value))` is the value with its members in order. -/
theorem loads_reordered {value : Json} {raw : Bytes} (h : i.process.codec.canonical value = .ok raw)
    (hvalue : value.Leaves (Stable (.standard (i.spare + 1) i.float)) (i.spare + 1)) (hsplit : ¬ Split value)
    (hunique : ¬ Duplicate value) : ∃ value', Reordered value value' ∧ i.process.codec.loads (.bytes raw) = .ok value' := by
  obtain ⟨hcomma, hcolon⟩ := canonical_separators (i.spare + 1)
  obtain ⟨value', hsame, hloads⟩ := dumpsBytes_reordered rfl rfl rfl hcomma hcolon (standard_keepsPairs _ _)
    (ofJson_eq_ok.mp h) hvalue hsplit hunique le_rfl
  exact ⟨value', hsame, ofJson_eq_ok.mpr hloads⟩

end Read

section Rules
variable {rule rule' : Json}

theorem isOneOf_str {value : Json} {options : List Text} (h : value.isOneOf options = true) :
    ∃ s ∈ options, value = .str s := by
  cases value with
  | str s => exact ⟨s, of_decide_eq_true h, rfl⟩
  | null | bool | int | float | arr | obj => cases h

theorem checkRule_obj {members : List (Text × Json)} :
    checkRule (.obj members) = .ok () ↔
      ((∀ key ∈ members.map Prod.fst, key ∈ fixtureFields) ∧ ∀ field ∈ fixtureFields, field ∈ members.map Prod.fst) ∧
      ((members.lookup (text "rule_type")).getD .null).isOneOf [text "BINARY", text "SIGNINGID"] = true ∧
      ((members.lookup (text "policy")).getD .null).isOneOf [text "BLOCKLIST", text "ALLOWLIST"] = true := by
  constructor
  · intro h
    unfold checkRule at h
    dsimp only at h
    split_ifs at h with hfields hvalues
    · rw [not_or, not_not, not_not] at hvalues
      exact ⟨hfields, hvalues⟩
    · cases h
    · cases h
  · rintro ⟨hfields, htype, hpolicy⟩
    unfold checkRule
    dsimp only
    rw [if_neg (not_not.mpr hfields), if_neg]
    · rfl
    · rw [not_or, not_not, not_not]
      exact ⟨htype, hpolicy⟩

theorem checkRule_reordered (h : checkRule rule = .ok ()) (hsame : Reordered rule rule') (hunique : ¬ Duplicate rule) :
    checkRule rule' = .ok () := by
  cases rule with
  | obj members =>
    obtain ⟨members', rfl, hperm, -⟩ := hsame.obj hunique
    obtain ⟨_, hmembers, hstrings⟩ := hsame.lookup hunique
    obtain rfl := Json.obj.inj hmembers
    have hkeys (key : Text) : key ∈ members'.map Prod.fst ↔ key ∈ members.map Prod.fst := hperm.mem_iff
    have hstring (field : Text) (options : List Text)
        (hvalue : ((members.lookup field).getD .null).isOneOf options = true) :
        ((members'.lookup field).getD .null).isOneOf options = true := by
      obtain ⟨s, hs, heq⟩ := isOneOf_str hvalue
      cases hlookup : members.lookup field with
      | none =>
        rw [hlookup] at heq
        cases heq
      | some value =>
        rw [hlookup, Option.getD_some] at heq
        rw [hstrings field s (heq ▸ hlookup)]
        exact decide_eq_true hs
    obtain ⟨⟨hknown, hall⟩, htype, hpolicy⟩ := checkRule_obj.mp h
    refine checkRule_obj.mpr ⟨⟨?_, ?_⟩, hstring _ _ htype, hstring _ _ hpolicy⟩
    · exact fun key hkey => hknown key ((hkeys key).mp hkey)
    · exact fun field hfield => (hkeys field).mpr (hall field hfield)
  | arr items =>
    rw [checkRule] at h
    split_ifs at h
  | str | null | bool | int | float => cases h

variable {i : Interpreter}

theorem forM_checkRule {rules : List Json} :
    rules.forM checkRule = .ok () ↔ ∀ rule ∈ rules, checkRule rule = .ok () := by
  induction rules with
  | nil => simp
  | cons rule rules ih =>
    change (checkRule rule >>= fun _ => rules.forM checkRule) = .ok () ↔ _
    rw [List.forall_mem_cons, ← ih, bind_eq_ok]
    exact ⟨fun ⟨_, h, h'⟩ => ⟨h, h'⟩, fun ⟨h, h'⟩ => ⟨(), h, h'⟩⟩

/-- The fixture of values in another order is the same. -/
theorem fixture_reordered {n : ℤ} {rules rules' : List Json} {approval : PyValue} {f : Fixture}
    (h : fixture i.process.codec (.int n) rules approval = .ok f) (hsame : List.Forall₂ Reordered rules rules')
    (hunique : ∀ rule ∈ rules, ¬ Duplicate rule) : fixture i.process.codec (.int n) rules' approval = .ok f := by
  simp only [fixture, throw_eq_error, error_bind, pure_eq_ok, check_eq_ok, bind_eq_ok, Except.ok.injEq] at h ⊢
  obtain ⟨hbounds, _, hchecked, encoded, hencoded, hf⟩ := h
  have hrules := forM_checkRule.mp hchecked
  have hchecked' : rules'.forM checkRule = .ok () := by
    apply forM_checkRule.mpr
    exact forall₂_right hsame fun rule hrule rule' hordered =>
      checkRule_reordered (hrules rule hrule) hordered (hunique rule hrule)
  have hencoded' : rules'.mapM i.process.codec.canonical = .ok encoded := by
    have hmap (xs ys : List Json) (hxs : List.Forall₂ Reordered xs ys) (hall : ∀ rule ∈ xs, ¬ Duplicate rule) :
        ys.mapM i.process.codec.canonical = xs.mapM i.process.codec.canonical := by
      induction hxs with
      | nil => rfl
      | cons hxy _ ih =>
        rw [List.mapM_cons, List.mapM_cons, canonical_reordered i hxy (hall _ List.mem_cons_self),
          ih fun rule hrule => hall rule (List.mem_cons_of_mem _ hrule)]
    rw [hmap rules rules' hsame hunique, hencoded]
  exact ⟨hsame.length_eq ▸ hbounds, (), hchecked', encoded, hencoded', hf⟩

end Rules

section Returned
variable {i : Interpreter} {snapshot : Snapshot} {row : Row} {raws : List PyValue} {rules : List Json} {approval : Text}
  {f : Fixture}

theorem published_members {Q : Text × Json → Prop} {n : ℤ} (hrevision : Q (text "revision", .int n))
    (hrules : Q (text "rules", .arr rules)) (happroval : Q (text "approval", .str approval)) :
    ∀ m ∈ [(text "revision", Json.int n), (text "rules", .arr rules), (text "approval", .str approval)], Q m := by
  simp only [List.forall_mem_cons, List.not_mem_nil, false_implies, implies_true, and_true]
  exact ⟨hrevision, hrules, happroval⟩

theorem published_unique {n : ℤ} (h : ∀ rule ∈ rules, ¬ Duplicate rule) :
    ¬ Duplicate (publishedValue n rules approval) := by
  refine not_duplicate_obj.mpr ⟨?_, published_members ?_ ?_ ?_⟩
  · change [text "revision", text "rules", text "approval"].Nodup
    decide
  · exact not_duplicate_scalar rfl
  · exact not_duplicate_arr.mpr h
  · exact not_duplicate_scalar rfl

theorem published_unsplit {n : ℤ} (h : ∀ rule ∈ rules, ¬ Split rule) (happroval : Whole approval) :
    ¬ Split (publishedValue n rules approval) := by
  have hlow : ∀ name ∈ [text "revision", text "rules", text "approval"], Whole name := by
    intro name hname
    refine whole_of_low fun c hc => ?_
    have hall : ∀ name ∈ [text "revision", text "rules", text "approval"], ∀ c ∈ name, c < 0xD800 := by decide
    exact hall name hname c hc
  apply not_split_obj
  apply published_members
  · exact ⟨hlow _ (by simp), not_split_scalar rfl (by rintro s ⟨⟩)⟩
  · exact ⟨hlow _ (by simp), not_split_arr h⟩
  · refine ⟨hlow _ (by simp), not_split_scalar rfl ?_⟩
    rintro s ⟨⟩
    exact happroval

theorem published_leaves {r : Reader} {n : ℤ} {d : ℕ} (h : ∀ rule ∈ rules, rule.Leaves (Stable r) d) :
    (publishedValue n rules approval).Leaves (Stable r) d := by
  cases d with
  | zero => trivial
  | succ d =>
    refine published_members ?_ ?_ ?_
    · exact (Json.Leaves.scalar rfl).mpr trivial
    · cases d with
      | zero => trivial
      | succ d => exact fun rule hrule => (h rule hrule).shrink (stable_container r) (by omega)
    · exact (Json.Leaves.scalar rfl).mpr trivial

/-- The row of an accepted snapshot is read as its revision, its rules in order and its approval. -/
theorem Publishes.read (hfloat : ReprStable i) (h : Publishes i.process.codec snapshot row raws rules approval f)
    (hwhole : snapshot.Unsplit i.process.codec) :
    ∃ members rules', i.process.codec.loads (.bytes row.payload) = .ok (.obj members) ∧
      i.process.codec.canonical (.obj members) = .ok row.payload ∧
      subscript (.obj members) "revision" = .ok (.int row.revision) ∧
      subscript (.obj members) "rules" = .ok (.arr rules') ∧ List.Forall₂ Reordered rules rules' ∧
      subscript (.obj members) "approval" = .ok (.str approval) ∧ ∀ rule ∈ rules, ¬ Duplicate rule := by
  have hrules : ∀ rule ∈ rules, (rule.Leaves (Stable (.standard (i.spare + 1) i.float)) (i.spare + 1) ∧
      ¬ Duplicate rule) ∧ ¬ Split rule := by
    refine forall₂_right h.loads fun raw hraw rule hrule => ⟨loads_stable hfloat hrule, ?_⟩
    exact hwhole.rules raws (by rw [h.snapshot]) raw hraw rule hrule
  have happroval : Whole approval := hwhole.approval approval (by rw [h.snapshot])
  have hunique : ¬ Duplicate (publishedValue row.revision rules approval) :=
    published_unique fun rule hrule => (hrules rule hrule).1.2
  have hsplit : ¬ Split (publishedValue row.revision rules approval) :=
    published_unsplit (fun rule hrule => (hrules rule hrule).2) happroval
  have hleaves : (publishedValue row.revision rules approval).Leaves (Stable (.standard (i.spare + 1) i.float))
      (i.spare + 1) := published_leaves fun rule hrule => (hrules rule hrule).1.1
  obtain ⟨value, hsame, hloads⟩ := loads_reordered h.payload hleaves hsplit hunique
  have hcanonical := canonical_reordered i hsame hunique
  rw [h.payload] at hcanonical
  obtain ⟨members, rfl, -, hlookup⟩ := hsame.obj hunique
  obtain ⟨revision, hrevision, hn⟩ := hlookup (text "revision") _ rfl
  obtain ⟨list, hlist, hitems⟩ := hlookup (text "rules") (.arr rules) rfl
  obtain ⟨label, hlabel, hs⟩ := hlookup (text "approval") (.str approval) rfl
  obtain rfl := hn.scalar rfl
  obtain rfl := hs.scalar rfl
  obtain ⟨rules', rfl, hordered⟩ := hitems.arr
  refine ⟨members, rules', hloads, hcanonical, ?_, ?_, hordered, ?_, fun rule hrule => (hrules rule hrule).1.2⟩
  · simp [subscript, Dict.get, hrevision]
  · simp [subscript, Dict.get, hlist]
  · simp [subscript, Dict.get, hlabel]

/-- It is returned as the fixture that was checked. -/
theorem Publishes.returned (hfloat : ReprStable i) (h : Publishes i.process.codec snapshot row raws rules approval f)
    (hwhole : snapshot.Unsplit i.process.codec) {t : Tables} (ht : t.latest = some row) :
    stateSnapshot i.process t = .ok f := by
  obtain ⟨members, rules', hloads, hcanonical, hrevision, hrules, hordered, happroval, hunique⟩ := h.read hfloat hwhole
  have hequal : equalsInt i.process row.revision (.int row.revision) = true := by simp [equalsInt]
  have htruthy : Json.truthy (.arr rules') = true := by
    cases hordered with
    | nil => exact absurd rfl h.nonempty
    | cons => rfl
  have hread : readRow i.process row = .ok f := by
    simp only [readRow, hloads, hrevision, hrules, hcanonical, happroval, ok_bind, hequal, htruthy, not_true_eq_false,
      if_false, ne_eq]
    exact fixture_reordered h.checked hordered hunique
  unfold stateSnapshot
  rw [ht]
  dsimp only
  rw [if_neg (not_not.mpr h.digest.symm), hread]
  rfl

theorem fixture_approval {codec : Codec} {n : ℤ} {given : PyValue} (h : fixture codec (.int n) rules given = .ok f) :
    f.approval = given := by
  simp only [fixture, throw_eq_error, pure_eq_ok, check_eq_ok, bind_eq_ok, error_bind, Except.ok.injEq] at h
  obtain ⟨-, -, -, encoded, -, rfl⟩ := h
  rfl

theorem Publishes.rewritten (h : Publishes i.process.codec snapshot row raws rules approval f) :
    Rewritten i.process.codec snapshot f := by
  obtain rfl := h.snapshot
  obtain ⟨-, -, hrevision, hencoded⟩ := fixture_int h.checked
  refine ⟨by rw [hrevision], ?_, raws, rfl, ?_⟩
  · exact (fixture_approval h.checked).symm
  · exact forall₂_comp h.loads hencoded

/-- Of rows that are served, one with the payload or the digest of a published row is that row. -/
theorem Publishes.only (hfloat : ReprStable i) (h : Publishes i.process.codec snapshot row raws rules approval f)
    (hwhole : snapshot.Unsplit i.process.codec) {t : Tables} {row' : Row} (ht : t.latest = some row')
    (hpart : row'.payload = row.payload ∨ row'.digest = row.digest)
    (hcollision : i.sha256 row'.payload = i.sha256 row.payload → row'.payload = row.payload) {f' : Fixture}
    (hserved : stateSnapshot i.process t = .ok f') : row' = row := by
  obtain ⟨members, rules', hloads, -, hrevision, -⟩ := h.read hfloat hwhole
  unfold stateSnapshot at hserved
  rw [ht] at hserved
  dsimp only at hserved
  split_ifs at hserved with hdigest
  rw [not_not] at hdigest
  have hpayload : row'.payload = row.payload := by
    rcases hpart with hpayload | hsame
    · exact hpayload
    · exact hcollision ((hdigest.trans hsame).trans h.digest)
  split at hserved
  · next read hread =>
    simp only [readRow, throw_eq_error, error_bind, check_eq_ok, bind_eq_ok, not_not, hpayload, hloads] at hread
    obtain ⟨value, hvalue, revision, hfound, hequals, -⟩ := hread
    obtain rfl := Except.ok.inj hvalue
    rw [hrevision] at hfound
    obtain rfl := Except.ok.inj hfound
    have hn : row.revision = row'.revision := by simpa [equalsInt] using hequals
    obtain ⟨n, payload, digest⟩ := row'
    obtain ⟨n', payload', digest'⟩ := row
    obtain rfl : payload = payload' := hpayload
    obtain rfl : n' = n := hn
    obtain rfl : digest = digest' := hdigest.symm.trans h.digest.symm
    rfl
  all_goals cases hserved

end Returned

section Sample

deriving instance DecidableEq for Snapshot, Call

def samplePublisher : Interpreter := { sampleInterpreter with float := fun _ => text "1.0" }

theorem samplePublisher_stable : ReprStable samplePublisher := by
  refine fun _ _ => ⟨?_, ⟨49, text ".0", rfl, by decide⟩, fun rest hrest => ?_⟩
  · change Ascii (text "1.0")
    unfold Ascii
    decide
  · have hdigits : (48 :: rest).takeWhile isDigit = [48] ∧ (48 :: rest).dropWhile isDigit = rest :=
      @takeWhile_append_stops [48] rest (by decide) hrest
    have hwhole : scanWhole (49 :: 46 :: 48 :: rest) = ([49], 46 :: 48 :: rest) := rfl
    have hfraction : scanFraction (46 :: 48 :: rest) = ([46, 48], rest) := by
      rw [scanFraction, hdigits.1, hdigits.2]
      rfl
    change scanWord _ (49 :: 46 :: 48 :: rest) = _
    rw [scanWord_digit rfl]
    simp only [scanUnsigned, hwhole, hfraction, scanExponent_stops hrest]
    rfl

/-- A rule with its members in another order and a float that is written in another way. -/
def sampleSource : PyValue := .str (text ("\x7b\"rule_type\": \"BINARY\", \"policy\": \"BLOCKLIST\", " ++
  "\"identifier\": \x7b\"b\": 1.00, \"a\": \"\u00e9\"\x7d\x7d"))

def sampleSourceValue : Json :=
  .obj [(text "rule_type", .str (text "BINARY")), (text "policy", .str (text "BLOCKLIST")),
    (text "identifier", .obj [(text "b", .float (text "1.0")), (text "a", .str [0xE9])])]

def samplePublished : Snapshot := ⟨.int 7, some [sampleSource], .str (text "synthetic-only")⟩

def samplePublish : List (Action Failure Call) :=
  [.commit 1, .execute 1, .start 1, .call 1 (.revokeFixture (.str (text "device-b"))),
    .commit 0, .execute 0, .execute 0, .execute 0, .start 0, .call 0 (.publishFixture (some samplePublished))]

theorem sampleSource_loads : samplePublisher.process.codec.loads sampleSource = .ok sampleSourceValue := rfl

theorem sampleSource_unsplit : ¬ Split sampleSourceValue := by
  have hlow (s : Text) (h : ∀ c ∈ s, c < 0xD800) : ¬ Split (.str s) := by
    refine not_split_scalar rfl ?_
    rintro _ ⟨⟩
    exact whole_of_low h
  have hinner : ¬ Split (.obj [(text "b", .float (text "1.0")), (text "a", .str [0xE9])]) := by
    apply not_split_obj
    simp only [List.forall_mem_cons, List.not_mem_nil, false_implies, implies_true, and_true]
    exact ⟨⟨whole_of_low (by decide), not_split_scalar rfl (by rintro s ⟨⟩)⟩, whole_of_low (by decide),
      hlow _ (by decide)⟩
  apply not_split_obj
  simp only [List.forall_mem_cons, List.not_mem_nil, false_implies, implies_true, and_true]
  exact ⟨⟨whole_of_low (by decide), hlow _ (by decide)⟩, ⟨whole_of_low (by decide), hlow _ (by decide)⟩,
    whole_of_low (by decide), hinner⟩

theorem samplePublished_unsplit : samplePublished.Unsplit samplePublisher.process.codec where
  rules raws hraws raw hraw rule hrule := by
    obtain rfl := Option.some.inj hraws
    obtain rfl := List.mem_singleton.mp hraw
    rw [sampleSource_loads] at hrule
    obtain rfl := Except.ok.inj hrule
    exact sampleSource_unsplit
  approval s hs := by
    obtain rfl := PyValue.str.inj hs
    exact whole_of_low (by decide)

end Sample

end Sync
