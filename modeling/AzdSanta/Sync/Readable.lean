import AzdSanta.Sync.Handler

/-! What `decode` and the file bring: it can be written again, but for numbers that are not finite. -/
namespace Sync
open Checks Python

/-- `repr` of a finite float is a number that `json.loads` reads. -/
def ReprLegible (i : Interpreter) : Prop :=
  ∀ literal, Legible (.standard (i.spare + 1) i.float) (.float (i.float literal))

/-- A snapshot that the file holds and whose rules can be read. -/
structure Stocked (i : Interpreter) (t : Tables) (snapshot : Fixture) : Prop where
  known : snapshot.revision ∈ t.snapshots.map Row.revision
  low : 1 ≤ snapshot.revision
  size : snapshot.rules.length ≤ 100
  loads : ∀ raw ∈ snapshot.rules, ∃ rule, i.process.codec.loads (.bytes raw) = .ok rule

section Snapshots
variable {i : Interpreter} {t : Tables} {snapshot : Fixture}

/-- What a reader returns, as far as the canonical writer is concerned. -/
def Fits (i : Interpreter) (leaf : Json) : Prop :=
  Legible (.standard (i.spare + 1) i.float) leaf ∧ Printable leaf

theorem Fits.hashable {leaf : Json} (h : Fits i leaf) : leaf.hashable = true := by
  cases leaf with
  | null | bool | int | float | str => rfl
  | arr | obj => exact h.2.elim

theorem standard_fits (hfloat : ReprLegible i) : LeavesFrom (.standard (i.spare + 1) i.float) (Fits i) where
  null := ⟨trivial, trivial⟩
  bool _ := ⟨trivial, trivial⟩
  str _ := ⟨trivial, trivial⟩
  float literal := ⟨hfloat literal, trivial⟩
  int _ t ht := ⟨trivial, t, ht⟩
  constant word v d h := by
    obtain rfl := Except.ok.inj h
    refine (Json.Leaves.scalar rfl).mpr ⟨fun hnumber => absurd hnumber ?_, trivial⟩
    split_ifs <;> decide
  pairs pairs members h m hm := by
    obtain rfl := Except.ok.inj h
    exact mem_dictPairs hm

theorem decodeReader_fits (hfloat : ReprLegible i) (g : Gateway) : LeavesFrom (decodeReader i g) (Fits i) where
  null := ⟨trivial, trivial⟩
  bool _ := ⟨trivial, trivial⟩
  str _ := ⟨trivial, trivial⟩
  float literal := ⟨hfloat literal, trivial⟩
  int _ t ht := ⟨trivial, t, ht⟩
  constant word v d h := by cases h
  pairs pairs members h m hm := by
    simp only [decodeReader, uniquePairs] at h
    split_ifs at h
    obtain rfl := Except.ok.inj h
    exact ⟨m, hm, rfl⟩

theorem canonical_separators (depth : ℕ) :
    Separator 44 (canonicalWriter depth).comma ∧ Separator 58 (canonicalWriter depth).colon :=
  ⟨⟨[], rfl, by simp⟩, [], rfl, by simp⟩

/-- `json.loads(canonical(value))` returns. -/
theorem loads_canonical {value : Json} {d : ℕ} (hd : d ≤ i.spare + 1) (hvalue : value.Leaves (Fits i) d)
    {raw : Bytes} (h : i.process.codec.canonical value = .ok raw) :
    ∃ rule, i.process.codec.loads (.bytes raw) = .ok rule := by
  have hfits := (hvalue.mono (fun _ => Fits.hashable) hd).imp fun _ hleaf => hleaf.1
  obtain ⟨hcomma, hcolon⟩ := canonical_separators (i.spare + 1)
  obtain ⟨rule, hrule⟩ := loadsBytes_returns rfl rfl hcomma hcolon (fun pairs => ⟨_, rfl⟩)
    (ofJson_eq_ok.mp h) hfits le_rfl
  exact ⟨rule, ofJson_eq_ok.mpr hrule⟩

theorem elements_fits {value : Json} {d : ℕ} (hvalue : value.Leaves (Fits i) d) {items : List Json}
    (h : elements value = some items) : ∀ item ∈ items, item.Leaves (Fits i) (d - 1) := by
  have hstr (s : Text) : (Json.str s).Leaves (Fits i) (d - 1) := (Json.Leaves.scalar rfl).mpr ⟨trivial, trivial⟩
  cases value with
  | arr values =>
    obtain rfl := Option.some.inj h
    cases d with
    | zero => exact hvalue.2.elim
    | succ d => exact hvalue
  | obj members =>
    obtain rfl := Option.some.inj h
    intro item hitem
    obtain ⟨m, -, rfl⟩ := List.mem_map.mp hitem
    exact hstr _
  | str s =>
    obtain rfl := Option.some.inj h
    intro item hitem
    obtain ⟨c, -, rfl⟩ := List.mem_map.mp hitem
    exact hstr _
  | null | bool | int | float => cases h

theorem mem_of_get {body : Dict} {key : String} {value : Json} (h : body.get key = some value) :
    (text key, value) ∈ body := by
  obtain ⟨before, after, rfl, -⟩ := List.lookup_eq_some_iff.mp h
  simp

theorem subscript_fits {value member : Json} {key : String} {d : ℕ} (hvalue : value.Leaves (Fits i) d)
    (h : subscript value key = .ok member) : member.Leaves (Fits i) (d - 1) := by
  cases value with
  | obj members =>
    cases d with
    | zero => exact hvalue.2.elim
    | succ d =>
      simp only [subscript] at h
      split at h
      · next found hfound =>
        obtain rfl := Except.ok.inj h
        exact hvalue _ (mem_of_get hfound)
      · cases h
  | null | bool | int | float | str | arr => cases h

theorem latest_row {row : Row} (h : t.latest = some row) : row ∈ t.snapshots ∧ row.revision = t.maximum := by
  have hfound := List.find?_some h
  exact ⟨List.mem_of_find?_eq_some h, by simpa using hfound⟩

theorem fixture_int {codec : Codec} {n : ℤ} {rules : List Json} {approval : PyValue}
    (h : fixture codec (.int n) rules approval = .ok snapshot) :
    1 ≤ n ∧ rules.length ≤ 100 ∧ snapshot.revision = n ∧
      List.Forall₂ (fun rule raw => codec.canonical rule = .ok raw) rules snapshot.rules := by
  simp only [fixture, throw_eq_error, error_bind, pure_eq_ok, check_eq_ok, bind_eq_ok, mapM_eq_ok,
    Except.ok.injEq, not_or, not_not] at h
  obtain ⟨⟨hlow, hsize, -⟩, -, -, encoded, hencoded, rfl⟩ := h
  exact ⟨not_lt.mp hlow, not_lt.mp hsize, rfl, hencoded⟩

theorem readRow_stocked (hfloat : ReprLegible i) {row : Row} (hrow : row ∈ t.snapshots)
    (h : readRow i.process row = .ok snapshot) : Stocked i t snapshot ∧ snapshot.revision = row.revision := by
  simp only [readRow, throw_eq_error, error_bind, check_eq_ok, bind_eq_ok, not_not] at h
  obtain ⟨value, hvalue, revision, -, hequals, rules, hrules, -, payload, -, -, approval, -, hfixture⟩ := h
  have hfits : value.Leaves (Fits i) (i.spare + 1) :=
    loadsBytes_leaves (standard_fits hfloat) (ofJson_eq_ok.mp hvalue)
  split at hfixture
  · next items hitems =>
    have hall := elements_fits (subscript_fits hfits hrules) hitems
    cases revision with
    | int n =>
      obtain ⟨hlow, hsize, hrevision, hencoded⟩ := fixture_int hfixture
      have hn : n = row.revision := by simpa [equalsInt] using hequals
      refine ⟨⟨?_, hrevision ▸ hlow, hencoded.length_eq ▸ hsize, ?_⟩, hrevision.trans hn⟩
      · rw [hrevision, hn]
        exact List.mem_map_of_mem hrow
      · exact forall₂_right hencoded fun item hitem raw hraw =>
          loads_canonical (by omega) (hall item hitem) hraw
    | null | bool | float | str | arr | obj => cases hfixture
  · cases hfixture

theorem stateSnapshot_stocked (hfloat : ReprLegible i) (h : stateSnapshot i.process t = .ok snapshot) :
    Stocked i t snapshot ∧ snapshot.revision = t.maximum := by
  unfold stateSnapshot at h
  split at h
  · cases h
  · next row hrow =>
    obtain ⟨hmem, hmaximum⟩ := latest_row hrow
    split_ifs at h
    split at h
    · next read hread =>
      obtain rfl := Except.ok.inj h
      obtain ⟨hstocked, hrevision⟩ := readRow_stocked hfloat hmem hread
      exact ⟨hstocked, hrevision.trans hmaximum⟩
    all_goals cases h

end Snapshots

section Uploads
variable {i : Interpreter} {g : Gateway} {h : HttpRequest} {r : Request} {tokens : List (Text × Device)}

theorem decodeBody_fits (hfloat : ReprLegible i) {raw : Bytes} {body : Dict}
    (hbody : decodeBody i g raw = .ok body) : (Json.obj body).Leaves (Fits i) g.room := by
  simp only [decodeBody, throw_eq_error, check_eq_ok] at hbody
  obtain ⟨-, hbody⟩ := hbody
  split at hbody
  · cases hbody
  · obtain ⟨value, hvalue, hbody⟩ := bind_eq_ok.mp hbody
    split at hbody
    · obtain rfl := Except.ok.inj hbody
      exact loads_leaves (decodeReader_fits hfloat g) (ofJson_eq_ok.mp hvalue)
    · cases hbody

theorem mapError_eq_ok {ε ε' α : Type} {f : ε → ε'} {x : Except ε α} {a : α} :
    x.mapError f = .ok a ↔ x = .ok a := by
  cases x <;> simp [Except.mapError]

theorem decode_fits (hfloat : ReprLegible i) {raw : Bytes} {encoding : Text} {body : Dict}
    (hbody : decode i g raw encoding = .ok body) : (Json.obj body).Leaves (Fits i) g.room := by
  unfold decode at hbody
  split at hbody
  · split at hbody
    · cases hbody
    · simp only [throw_eq_error, check_eq_ok, mapError_eq_ok] at hbody
      exact decodeBody_fits hfloat hbody.2.2
  · simp only [throw_eq_error, check_eq_ok, mapError_eq_ok] at hbody
    exact decodeBody_fits hfloat hbody.2

/-- What comes to a model. -/
structure Admitted (i : Interpreter) (g : Gateway) (h : HttpRequest) (r : Request) : Prop where
  route : routes.lookup h.path = some (r.stage, r.device)
  body : (Json.obj r.body).Leaves (Fits i) g.room

theorem admit_admitted (hfloat : ReprLegible i) (hr : h.admit i g tokens = .ok r) : Admitted i g h r := by
  unfold HttpRequest.admit at hr
  split at hr
  · cases hr
  · next stage device length hcheck =>
    split at hr
    · cases hr
    · next body hbody =>
      obtain rfl := Except.ok.inj hr
      obtain ⟨raw, -, hdecode⟩ := bind_eq_ok.mp hbody
      refine ⟨?_, decode_fits hfloat hdecode⟩
      unfold HttpRequest.check at hcheck
      split at hcheck
      · cases hcheck
      · next stage' device' hroute =>
        simp only [throw_eq_error, pure_eq_ok, check_eq_ok] at hcheck
        obtain ⟨-, -, hcheck⟩ := hcheck
        split at hcheck
        · split at hcheck
          · cases hcheck
          · obtain ⟨-, -, hcheck⟩ := by simpa only [check_eq_ok] using hcheck
            obtain ⟨rfl, hrest⟩ := Prod.mk.inj (Except.ok.inj hcheck)
            obtain ⟨rfl, -⟩ := Prod.mk.inj hrest
            exact hroute
        · cases hcheck

/-- An event of an admitted upload is canonical unless a number in it is not finite. -/
theorem canonical_refuses (hroom : g.room ≤ i.spare + 1) (hadmitted : Admitted i g h r) {events : List Json}
    (hevents : uploadEvents r.body = some events) {event : Json} (hevent : event ∈ events) :
    (¬ NonFinite event ∧ ∃ raw, i.process.codec.canonical event = .ok raw) ∨
      (NonFinite event ∧ i.process.codec.canonical event = .error (.valueError "")) := by
  have harr : r.body.get "events" = some (.arr events) := by
    unfold uploadEvents at hevents
    split at hevents
    · next events' harr =>
      split_ifs at hevents
      rw [harr, Option.some.inj hevents]
    · cases hevents
  have hfits : event.Leaves (Fits i) (i.spare + 1) := by
    have hbody := hadmitted.body.mono (fun _ => Fits.hashable) hroom
    have hlist := hbody _ (mem_of_get harr)
    cases hspare : i.spare with
    | zero =>
      rw [hspare] at hlist
      exact hlist.2.elim
    | succ d =>
      rw [hspare] at hlist
      exact (hlist event hevent).mono (fun _ => Fits.hashable) (by omega)
  obtain ⟨hcomma, hcolon⟩ := canonical_separators (i.spare + 1)
  rcases dumpsBytes_refuses rfl rfl hcomma hcolon (hfits.imp fun _ hleaf => hleaf.2)
    (hfits.imp fun _ hleaf => hleaf.1.ascii) with ⟨hfinite, raw, hraw⟩ | ⟨hrefused, hraw⟩
  · exact Or.inl ⟨hfinite, raw, ofJson_eq_ok.mpr hraw⟩
  · refine Or.inr ⟨hrefused, ?_⟩
    change ofJson _ = _
    rw [hraw]
    rfl

theorem eventDigests_refuses (hroom : g.room ≤ i.spare + 1) (hadmitted : Admitted i g h r)
    {events : List Json} (hevents : uploadEvents r.body = some events) :
    ((∀ event ∈ events, ¬ NonFinite event) ∧ ∃ digests, eventDigests i.process.codec events = .ok digests) ∨
      ((∃ event ∈ events, NonFinite event) ∧
        eventDigests i.process.codec events = .error (.valueError "")) := by
  apply mapM_dichotomy
  intro event hevent
  rcases canonical_refuses hroom hadmitted hevents hevent with ⟨hfinite, raw, hraw⟩ | ⟨hrefused, hraw⟩
  · exact Or.inl ⟨hfinite, _, by rw [hraw]; rfl⟩
  · exact Or.inr ⟨hrefused, by rw [hraw]; rfl⟩

end Uploads

end Sync
