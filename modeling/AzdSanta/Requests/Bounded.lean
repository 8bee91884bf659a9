import AzdSanta.Requests.Nesting

/-! `decode_bytes` accepts the bounded format and nothing else. -/
namespace Requests
open Python Checks

/-- What the body stands for under its encoding. -/
def Body (p : Platform) (encoding : Encoding) (raw body : Bytes) : Prop :=
  ∃ c, coding p encoding = some c ∧
    ((c = [] ∨ c = text "identity") ∧ body = raw ∨
      (c = text "deflate" ∨ c = text "zlib") ∧ p.zlib.Stream false raw body ∨
      c = text "gzip" ∧ p.zlib.Stream true raw body)

/-- The number of objects in the event collections. -/
def eventCount (members : List (Text × Json)) : List Text → ℕ
  | [] => 0
  | name :: names =>
    (match members.lookup name with
      | some (.arr events) => events.length
      | _ => 0) + eventCount members names

/-- A list of objects. -/
def IsCollection (v : Json) : Prop := ∃ events, v = .arr events ∧ ∀ event ∈ events, isObject event = true

/-- A JSON object within the limits, as the text says it. -/
structure WithinLimits (p : Platform) (limits : Limits) (input : Text) (data : Json) : Prop where
  value : ∃ room, (Reader.syntactic room p.float).loads input = .ok data
  unique : ¬ Duplicate data
  finite : ¬ NonFinite data
  nesting : data.Nests limits.depth
  events : ∃ members, data = .obj members ∧
    (∀ name ∈ eventCollections, ∀ v, members.lookup name = some v → IsCollection v) ∧
    eventCount members eventCollections ≤ limits.events

/-- The format that is accepted, with the value it stands for. -/
def Bounded (p : Platform) (limits : Limits) (raw : Bytes) (encoding : Encoding) (data : Json) : Prop :=
  raw.length ≤ limits.compressed ∧ ∃ body input, Body p encoding raw body ∧
    body.length ≤ limits.expanded ∧ decodeUtf8 false body = some input ∧ WithinLimits p limits input data

section Values
variable {p : Platform} {limits : Limits}

mutual

theorem isNonFinite_iff : (v : Json) → (isNonFinite v = true ↔ NonFinite v)
  | .float repr => by
    simp only [isNonFinite, Option.isSome_iff_ne_none]
    exact ⟨fun h => .float repr h, fun h => by cases h; assumption⟩
  | .arr items => by rw [isNonFinite, anyItem_iff items, nonFinite_arr]
  | .obj members => by rw [isNonFinite, anyMember_iff members, nonFinite_obj]
  | .null | .bool _ | .int _ | .str _ => ⟨nofun, nofun⟩

theorem anyItem_iff : (items : List Json) → (anyItem items = true ↔ ∃ item ∈ items, NonFinite item)
  | [] => by simp [anyItem]
  | v :: items => by
    rw [anyItem, Bool.or_eq_true, isNonFinite_iff v, anyItem_iff items, List.exists_mem_cons_iff]

theorem anyMember_iff : (members : List (Text × Json)) →
    (anyMember members = true ↔ ∃ m ∈ members, NonFinite m.2)
  | [] => by simp [anyMember]
  | (key, v) :: members => by
    rw [anyMember, Bool.or_eq_true, isNonFinite_iff v, anyMember_iff members, List.exists_mem_cons_iff]

end

theorem strict_hooks (p : Platform) : Strict (hooks p) where
  constant _ := rfl
  pairs := rfl

theorem loads_eq_ok {input : Text} {data : Json} :
    loads p input = .ok data ↔ (hooks p).loads input = .ok data ∧ ¬ NonFinite data := by
  unfold loads
  rw [← isNonFinite_iff]
  rcases (hooks p).loads input with e | v
  · simp
  · simp only [throw_eq_error, pure_eq_ok, check_eq_ok, Except.ok.injEq]
    constructor
    · rintro ⟨h, rfl⟩
      exact ⟨rfl, h⟩
    · rintro ⟨rfl, h⟩
      exact ⟨h, rfl⟩

/-- Behind the UTF-8 the scanner and the hooks let through what nests within the limit. -/
theorem readText_eq_ok (hroom : limits.depth ≤ p.room) {raw : Bytes} {data : Json} :
    readText p limits raw = .ok data ↔ ∃ input, decodeUtf8 false raw = some input ∧
      (∃ room, (Reader.syntactic room p.float).loads input = .ok data) ∧ ¬ Duplicate data ∧
      ¬ NonFinite data ∧ data.Nests limits.depth := by
  unfold readText
  rcases decodeUtf8 false raw with _ | input
  · simp
  simp only [Option.some.injEq, exists_eq_left']
  constructor
  · intro h
    obtain ⟨⟨⟩, hdepth, h⟩ := bind_eq_ok.mp h
    obtain ⟨hloads, hfinite⟩ := loads_eq_ok.mp h
    obtain ⟨⟨room, hvalue⟩, hunique, -⟩ := (strict_loads (strict_hooks p) hfinite).mp hloads
    exact ⟨⟨room, hvalue⟩, hunique, hfinite, (loads_passes hvalue).mp hdepth⟩
  · rintro ⟨⟨room, hvalue⟩, hunique, hfinite, hnests⟩
    have hdepth : checkDepth limits.depth ⟨0, false, false⟩ input = .ok () := (loads_passes hvalue).mpr hnests
    have hfits : data.Nests p.room := hnests.mono (fun _ h => h) hroom
    rw [hdepth, ok_bind, loads_eq_ok]
    exact ⟨(strict_loads (strict_hooks p) hfinite).mpr ⟨⟨room, hvalue⟩, hunique, hfits⟩, hfinite⟩

end Values

section Bodies
variable {p : Platform} {limits : Limits} {raw body : Bytes}

/-- The cut at one byte above the limit tells a stream within the limit from a longer one. -/
theorem inflate_eq_ok {gzip : Bool} :
    inflate p limits gzip raw = .ok body ↔ p.zlib.Stream gzip raw body ∧ body.length ≤ limits.expanded := by
  unfold inflate
  constructor
  · intro h
    rcases hd : p.zlib.decompress gzip raw (limits.expanded + 1) with _ | d
    · simp [hd] at h
    · simp only [hd, throw_eq_error, pure_eq_ok, check_eq_ok, Except.ok.injEq] at h
      obtain ⟨hlimit, hend, rfl⟩ := h
      push Not at hlimit hend
      refine ⟨p.zlib.complete gzip raw d.output (limits.expanded + 1) ?_, hlimit.1⟩
      obtain ⟨output, tail, unused, eof⟩ := d
      simp only at hlimit hend
      rw [hd, hlimit.2, hend.1, hend.2]
  · rintro ⟨hstream, hsize⟩
    rw [p.zlib.reads gzip raw body _ hstream (by omega)]
    simp [hsize]

theorem expand_eq_ok {encoding : Encoding} {c : Text} (hc : coding p encoding = some c)
    (hsize : body.length ≤ limits.expanded) : expand p limits c raw = .ok body ↔ Body p encoding raw body := by
  have hbody : Body p encoding raw body ↔ ((c = [] ∨ c = text "identity") ∧ body = raw ∨
      (c = text "deflate" ∨ c = text "zlib") ∧ p.zlib.Stream false raw body ∨
      c = text "gzip" ∧ p.zlib.Stream true raw body) := by
    simp only [Body, hc, Option.some.injEq, exists_eq_left']
  rw [hbody]
  unfold expand
  split_ifs with hcompressed hunknown
  · rw [inflate_eq_ok, and_iff_left hsize]
    simp only [compressions, List.mem_cons, List.not_mem_nil, or_false] at hcompressed
    rcases hcompressed with rfl | rfl | rfl <;> simp [text]
  · simp only [compressions, List.mem_cons, List.not_mem_nil, or_false, not_or] at hcompressed
    simp [hcompressed, hunknown]
  · simp only [compressions, List.mem_cons, List.not_mem_nil, or_false, not_or] at hcompressed
    have hplain : c = [] ∨ c = text "identity" := by tauto
    simp [hcompressed, hplain, eq_comm]

end Bodies

section Events
variable {limits : Limits} {members : List (Text × Json)}

theorem countEvents_eq_ok {names : List Text} {count n : ℕ} :
    countEvents members names count = .ok n ↔
      (∀ name ∈ names, ∀ v, members.lookup name = some v → IsCollection v) ∧
        n = count + eventCount members names := by
  induction names generalizing count with
  | nil => simp [countEvents, eventCount, eq_comm]
  | cons name names ih =>
    rw [countEvents, eventCount, List.forall_mem_cons]
    split
    · next hnone => simp [hnone, ih]
    · next events hsome =>
      simp only [hsome, Option.some.injEq, forall_eq', throw_eq_error, check_eq_ok, ih]
      simp [IsCollection, and_assoc, Nat.add_assoc]
    · next v hlist hsome =>
      simp only [hsome, Option.some.injEq, forall_eq', throw_eq_error, reduceCtorEq, false_iff, not_and]
      rintro ⟨⟨events, rfl, -⟩, -⟩
      exact absurd rfl (hlist events)

theorem checkData_eq_ok {data data' : Json} :
    checkData limits data = .ok data' ↔ data' = data ∧ ∃ members, data = .obj members ∧
      (∀ name ∈ eventCollections, ∀ v, members.lookup name = some v → IsCollection v) ∧
      eventCount members eventCollections ≤ limits.events := by
  unfold checkData
  split
  · next members =>
    simp only [bind_eq_ok, countEvents_eq_ok, throw_eq_error, pure_eq_ok, check_eq_ok, Except.ok.injEq,
      Json.obj.injEq, exists_eq_left', Nat.zero_add]
    constructor
    · rintro ⟨n, ⟨hcollections, rfl⟩, hcount, rfl⟩
      exact ⟨rfl, hcollections, not_lt.mp hcount⟩
    · rintro ⟨rfl, hcollections, hcount⟩
      exact ⟨_, ⟨hcollections, rfl⟩, not_lt.mpr hcount, rfl⟩
  · next hobject =>
    simp only [throw_eq_error, reduceCtorEq, false_iff, not_and]
    rintro - ⟨members, rfl, -⟩
    exact hobject members rfl

end Events

section Rejections
variable {α β : Type}

/-- Every error is a `RequestRejected` with one of three statuses. -/
def Rejects (x : Except Raised α) : Prop :=
  ∀ e, x = .error e → ∃ status detail, e = .rejected status detail ∧ status ∈ [400, 413, 415]

theorem rejects_ok (a : α) : Rejects (.ok a : Except Raised α) := nofun

theorem rejects_throw {status : ℕ} (detail : String) (h : status ∈ [400, 413, 415]) :
    Rejects (throw (.rejected status detail) : Except Raised α) := by
  intro e he
  obtain rfl := Except.error.inj he
  exact ⟨status, detail, rfl, h⟩

theorem rejects_bind {x : Except Raised α} {g : α → Except Raised β} (hx : Rejects x) (hg : ∀ a, Rejects (g a)) :
    Rejects (x >>= g) := by
  rcases x with e' | a
  · intro e he
    exact hx e (congrArg Except.error (Except.error.inj he))
  · exact hg a

theorem rejects_checkDepth (maximum : ℕ) (c : Cursor) (input : Text) : Rejects (checkDepth maximum c input) := by
  fun_induction checkDepth maximum c input with
  | case1 => exact rejects_ok ()
  | case7 => exact rejects_throw _ (by decide)
  | case2 | case3 | case4 | case5 | case6 | case8 | case9 | case10 => assumption

variable (p : Platform) (limits : Limits)

/-- The handlers leave nothing else of what the `try` block raises. -/
theorem rejects_readText (raw : Bytes) : Rejects (handled (readText p limits raw)) := by
  unfold readText
  rcases decodeUtf8 false raw with _ | input
  · exact rejects_throw _ (by decide)
  dsimp only
  rcases hdepth : checkDepth limits.depth ⟨0, false, false⟩ input with e | _
  · obtain ⟨status, detail, rfl, hstatus⟩ := rejects_checkDepth _ _ _ e hdepth
    exact rejects_throw detail hstatus
  · unfold loads
    rw [ok_bind]
    split
    · exact rejects_throw _ (by decide)
    · split_ifs
      · exact rejects_throw _ (by decide)
      · exact rejects_ok _

theorem rejects_expand (c : Text) (raw : Bytes) : Rejects (expand p limits c raw) := by
  unfold expand inflate
  split_ifs
  · split
    · exact rejects_throw _ (by decide)
    · split_ifs
      · exact rejects_throw _ (by decide)
      · exact rejects_throw _ (by decide)
      · exact rejects_ok _
  · exact rejects_throw _ (by decide)
  · exact rejects_ok _

theorem rejects_countEvents (members : List (Text × Json)) (names : List Text) (count : ℕ) :
    Rejects (countEvents members names count) := by
  induction names generalizing count with
  | nil => exact rejects_ok _
  | cons name names ih =>
    rw [countEvents]
    split
    · exact ih count
    · split_ifs
      · exact rejects_throw _ (by decide)
      · exact ih _
    · exact rejects_throw _ (by decide)

theorem rejects_checkData (data : Json) : Rejects (checkData limits data) := by
  unfold checkData
  split
  · refine rejects_bind (rejects_countEvents _ _ _) fun count => ?_
    split_ifs
    · exact rejects_throw _ (by decide)
    · exact rejects_ok _
  · exact rejects_throw _ (by decide)

theorem rejects_decodeBytes (raw : Bytes) (encoding : Encoding) : Rejects (decodeBytes p limits raw encoding) := by
  unfold decodeBytes
  split_ifs
  · exact rejects_throw _ (by decide)
  split
  · exact rejects_throw _ (by decide)
  · refine rejects_bind (rejects_expand p limits _ raw) fun body => ?_
    split_ifs
    · exact rejects_throw _ (by decide)
    · exact rejects_bind (rejects_readText p limits body) (rejects_checkData limits)

end Rejections

section Decoding
variable {p : Platform} {limits : Limits}

theorem configuredLimit_le {environ : Text → Option Text} {name : String} {default ceiling n : ℕ}
    (h : configuredLimit environ name default ceiling = some n) : n ≤ ceiling := by
  unfold configuredLimit at h
  dsimp only at h
  split_ifs at h with hraw hbounds
  obtain rfl := Option.some.inj h
  exact hbounds.2

theorem depth_le_of_configured {environ : Text → Option Text} (h : configuredLimits environ = some limits) :
    limits.depth ≤ 64 := by
  simp only [configuredLimits, Option.bind_eq_bind, Option.pure_def, Option.bind_eq_some_iff,
    Option.some.injEq] at h
  obtain ⟨compressed, -, expanded, -, depth, hdepth, events, -, rfl⟩ := h
  exact configuredLimit_le hdepth

theorem handled_eq_ok {α : Type} {x : Except Raised α} {a : α} : handled x = .ok a ↔ x = .ok a := by
  unfold handled
  split <;> simp

/-- A body within the limits is read, whatever form it came in. -/
theorem decodeBytes_body {raw body : Bytes} {encoding : Encoding} (hraw : raw.length ≤ limits.compressed)
    (hbody : Body p encoding raw body) (hsize : body.length ≤ limits.expanded) :
    decodeBytes p limits raw encoding = handled (readText p limits body) >>= checkData limits := by
  obtain ⟨c, hc, -⟩ := id hbody
  unfold decodeBytes
  rw [if_neg (not_lt.mpr hraw), hc]
  dsimp only
  rw [(expand_eq_ok hc hsize).mpr hbody, ok_bind, if_neg (not_lt.mpr hsize)]

theorem decodeBytes_eq_ok (hroom : limits.depth ≤ p.room) {raw : Bytes} {encoding : Encoding} {data : Json} :
    decodeBytes p limits raw encoding = .ok data ↔ Bounded p limits raw encoding data := by
  constructor
  · intro h
    unfold decodeBytes at h
    simp only [throw_eq_error, check_eq_ok] at h
    obtain ⟨hraw, h⟩ := h
    split at h
    · cases h
    · next c hc =>
      obtain ⟨body, hexpand, h⟩ := bind_eq_ok.mp h
      obtain ⟨hsize, h⟩ := check_eq_ok.mp h
      obtain ⟨value, hvalue, h⟩ := bind_eq_ok.mp h
      obtain ⟨rfl, hevents⟩ := checkData_eq_ok.mp h
      obtain ⟨input, hinput, hread, hunique, hfinite, hnests⟩ := (readText_eq_ok hroom).mp (handled_eq_ok.mp hvalue)
      exact ⟨not_lt.mp hraw, body, input, (expand_eq_ok hc (not_lt.mp hsize)).mp hexpand, not_lt.mp hsize, hinput,
        hread, hunique, hfinite, hnests, hevents⟩
  · rintro ⟨hraw, body, input, hbody, hsize, hinput, hdata⟩
    rw [decodeBytes_body hraw hbody hsize]
    have hread : readText p limits body = .ok data := (readText_eq_ok hroom).mpr
      ⟨input, hinput, hdata.value, hdata.unique, hdata.finite, hdata.nesting⟩
    rw [handled_eq_ok.mpr hread, ok_bind]
    exact checkData_eq_ok.mpr ⟨rfl, hdata.events⟩

/-- Accepted is what is bounded, in one of its forms, and all else is rejected. -/
theorem decode_bytes_exact (p : Platform) (environ : Text → Option Text) (limits : Limits)
    (hlimits : configuredLimits environ = some limits) (hroom : 64 ≤ p.room) (raw : Bytes) (encoding : Encoding) :
    (∀ data, decodeBytes p limits raw encoding = .ok data ↔ Bounded p limits raw encoding data) ∧
    (∀ raw' encoding' body, raw.length ≤ limits.compressed → raw'.length ≤ limits.compressed →
      body.length ≤ limits.expanded → Body p encoding raw body → Body p encoding' raw' body →
      decodeBytes p limits raw' encoding' = decodeBytes p limits raw encoding) ∧
    ∀ e, decodeBytes p limits raw encoding = .error e →
      ∃ status detail, e = .rejected status detail ∧ status ∈ [400, 413, 415] := by
  refine ⟨fun data => ?_, ?_, rejects_decodeBytes p limits raw encoding⟩
  · exact decodeBytes_eq_ok ((depth_le_of_configured hlimits).trans hroom)
  · intro raw' encoding' body hraw hraw' hsize hbody hbody'
    rw [decodeBytes_body hraw hbody hsize, decodeBytes_body hraw' hbody' hsize]

end Decoding

section Sample

/-- One object in one collection. -/
def sampleBody : Bytes := [123, 34, 101, 118, 101, 110, 116, 115, 34, 58, 91, 123, 125, 93, 125]

/-- The same in a stored block. -/
def sampleStream : Bytes := [120, 1, 1, 15, 0, 240, 255] ++ sampleBody ++ [44, 195, 5, 188]

/-- A `zlib` that knows one stream. -/
def sampleZlib : Zlib where
  decompress gzip raw n :=
    if gzip = false ∧ raw = sampleStream then
      some (if sampleBody.length < n then ⟨sampleBody, [], [], true⟩
        else ⟨sampleBody.take n, sampleBody.drop n, [], false⟩)
    else none
  Stream gzip raw body := gzip = false ∧ raw = sampleStream ∧ body = sampleBody
  reads := by
    rintro gzip raw body n ⟨rfl, rfl, rfl⟩ hn
    simp [hn]
  complete := by
    intro gzip raw body n h
    split_ifs at h with hstream hn
    · obtain ⟨rfl, rfl⟩ := hstream
      simp only [Option.some.injEq, Inflated.mk.injEq] at h
      exact ⟨rfl, rfl, h.1.symm⟩
    · simp at h

def samplePlatform : Platform where
  zlib := sampleZlib
  float _ := text "1.0"
  lower s := s.map fun c => if 65 ≤ c ∧ c ≤ 90 then c + 32 else c
  room := 900

def defaultLimits : Limits := ⟨1048576, 4194304, 32, 100⟩

theorem configured_default : configuredLimits (fun _ => none) = some defaultLimits := by decide

/-- A stream and the plain text give the same value. -/
theorem decode_bytes_exact_stream :
    decodeBytes samplePlatform defaultLimits sampleStream (.str (text " Deflate")) =
      decodeBytes samplePlatform defaultLimits sampleBody .none ∧
    Bounded samplePlatform defaultLimits sampleBody .none
      (.obj [(text "events", .arr [.obj []])]) := by
  obtain ⟨hiff, hsame, -⟩ := decode_bytes_exact samplePlatform (fun _ => none) defaultLimits configured_default
    (by decide) sampleBody .none
  refine ⟨hsame sampleStream _ sampleBody (by decide) (by decide) (by decide) ?_ ?_, (hiff _).mp rfl⟩
  · exact ⟨[], rfl, Or.inl ⟨Or.inl rfl, rfl⟩⟩
  · exact ⟨text "deflate", by decide, Or.inr (Or.inl ⟨Or.inl rfl, rfl, rfl, rfl⟩)⟩

end Sample
end Requests
