import AzdSanta.Python.JsonRoundTrip
import AzdSanta.Sync.Sessions

/-! Cursors through JSON, the MAC and base64 and back. -/
namespace Sync
open Checks Python

/-- An interpreter with room for at least one container, and the key of a `Model` on it. -/
structure Interpreter where
  spare : ℕ
  float : Text → Text
  sha256 : Bytes → Text
  floatEquals : Text → ℤ → Bool
  mac : Bytes → Bytes
  mac_size : ∀ payload, (mac payload).length = 32

def Interpreter.process (i : Interpreter) : Process where
  codec := .python (i.spare + 1) i.float i.sha256
  floatEquals := i.floatEquals
  mac := i.mac
  mac_size := i.mac_size

section Text

/-- The text of a session id: 32 lower case hexadecimal digits. -/
def IdText (id : Text) : Prop := id.length = 32 ∧ ∀ c ∈ id, isDigit c = true ∨ (97 ≤ c ∧ c ≤ 102)

theorem hexDigit_idText {n : ℕ} (hn : n < 16) :
    isDigit (hexDigit n) = true ∨ (97 ≤ hexDigit n ∧ hexDigit n ≤ 102) := by
  interval_cases n <;> decide

theorem hex_idText (token : Token) : IdText token.hex := by
  constructor
  · have hpair : ∀ b ∈ token.bytes, [hexDigit (b.toNat / 16), hexDigit (b.toNat % 16)].length = 2 :=
      fun _ _ => rfl
    rw [Token.hex, List.length_flatMap, List.map_congr_left hpair, List.map_const', List.sum_replicate,
      token.size]
    rfl
  · intro c hc
    obtain ⟨b, -, hb⟩ := List.mem_flatMap.mp hc
    have hsize := b.toNat_lt
    simp only [List.mem_cons, List.not_mem_nil, or_false] at hb
    rcases hb with rfl | rfl
    · exact hexDigit_idText (by omega)
    · exact hexDigit_idText (by omega)

/-- Letters, digits and dashes are written as they are. -/
theorem escapeChar_plain {c : ℕ} (hc : 45 ≤ c ∧ c < 123 ∧ c ≠ 92) : escapeChar true c = [c] := by
  unfold escapeChar
  split_ifs <;> first | omega | rfl

theorem quote_plain {s : Text} (hs : ∀ c ∈ s, 45 ≤ c ∧ c < 123 ∧ c ≠ 92) : quote true s = 34 :: s ++ [34] := by
  have hflat : s.flatMap (escapeChar true) = s := by
    induction s with
    | nil => rfl
    | cons c s ih =>
      rw [List.flatMap_cons, escapeChar_plain (hs c List.mem_cons_self),
        ih fun d hd => hs d (List.mem_cons_of_mem _ hd), List.singleton_append]
  rw [quote, hflat]

theorem IdText.plain {id : Text} (h : IdText id) : ∀ c ∈ id, 45 ≤ c ∧ c < 123 ∧ c ≠ 92 := by
  intro c hc
  have hchar := h.2 c hc
  simp only [isDigit, Bool.and_eq_true, decide_eq_true_eq] at hchar
  omega

theorem name_plain (device : Device) : ∀ c ∈ device.name, 45 ≤ c ∧ c < 123 ∧ c ≠ 92 := by
  cases device <;> decide

theorem name_length (device : Device) : device.name.length = 8 := by
  cases device <;> decide

theorem name_injective {d d' : Device} (h : d.name = d'.name) : d = d' := by
  cases d <;> cases d' <;> first | rfl | exact absurd h (by decide)

theorem isScalar_of_plain {s : Text} (hs : ∀ c ∈ s, 45 ≤ c ∧ c < 123 ∧ c ≠ 92) :
    ∀ c ∈ s, isScalar c = true := by
  intro c hc
  have h := hs c hc
  simp only [isScalar, isSurrogate, Bool.and_eq_true, decide_eq_true_eq, Bool.not_eq_true',
    Bool.and_eq_false_iff, decide_eq_false_iff_not]
  omega

end Text

section Payload
variable {depth : ℕ} {float : Text → Text} {sha256 : Bytes → Text} {device : Device} {session : Session}
  {offset : ℕ} {payload : Bytes}

theorem ofJson_eq_ok {α : Type} {x : Except JsonError α} {a : α} : ofJson x = .ok a ↔ x = .ok a := by
  rcases x with (_ | _) | _ <;> simp [ofJson]

theorem cursorValues_plain (r : Reader) (w : Writer) (d : ℕ) (hid : IdText session.id) :
    (cursorValues device session offset).Plain r w d := by
  cases d with
  | zero => simp [cursorValues, Json.Plain]
  | succ d =>
    simp only [cursorValues, Json.Plain]
    intro item hitem
    simp only [List.mem_cons, List.not_mem_nil, or_false] at hitem
    rcases hitem with rfl | rfl | rfl | rfl
    · simpa only [Json.Plain] using isScalar_of_plain (name_plain device)
    · simpa only [Json.Plain] using isScalar_of_plain hid.plain
    · simp only [Json.Plain]
    · simp only [Json.Plain]

/-- An issued payload is read back. -/
theorem loads_payload (hid : IdText session.id)
    (h : (Codec.python depth float sha256).canonical (cursorValues device session offset) = .ok payload) :
    (Codec.python depth float sha256).loads (.bytes payload) = .ok (cursorValues device session offset) := by
  have hdumps : (canonicalWriter depth).dumpsBytes (cursorValues device session offset) = .ok payload :=
    ofJson_eq_ok.mp h
  have hcomma : Separator 44 (canonicalWriter depth).comma := ⟨[], rfl, by simp⟩
  have hcolon : Separator 58 (canonicalWriter depth).colon := ⟨[], rfl, by simp⟩
  have hloads := loadsBytes_dumpsBytes (r := Reader.standard depth float) rfl hcomma hcolon hdumps
    (cursorValues_plain _ _ _ hid) le_rfl
  exact ofJson_eq_ok.mpr hloads

theorem printInt_small {n : ℤ} (hlow : 0 ≤ n) (hhigh : n < 2 ^ 63) :
    ∃ digits, printInt n = .ok digits ∧ digits.length ≤ 19 := by
  have hlength : (decimal n.natAbs).length ≤ 19 := decimal_length_le (k := 18) (by omega)
  refine ⟨decimal n.natAbs, ?_, hlength⟩
  have hsize : ¬ (decimal n.natAbs).length > maxDigits := by
    unfold maxDigits
    omega
  simp only [printInt]
  rw [if_neg hsize, if_neg (by omega)]
  rfl

/-- Payloads of small revisions are short. -/
theorem canonical_values (hid : IdText session.id) (hlow : 0 ≤ session.snapshot.revision)
    (hhigh : session.snapshot.revision < 2 ^ 63) (hoffset : offset < 2 ^ 63) :
    ∃ payload, (Codec.python (depth + 1) float sha256).canonical (cursorValues device session offset) =
      .ok payload ∧ payload.length ≤ 87 := by
  obtain ⟨revision, hrevision, hrevision'⟩ := printInt_small hlow hhigh
  obtain ⟨last, hlast, hlast'⟩ := printInt_small (n := offset) (by omega) (by exact_mod_cast hoffset)
  let printed : Text := 91 :: [44].intercalate
    [34 :: device.name ++ [34], 34 :: session.id ++ [34], revision, last] ++ [93]
  have hprint : (canonicalWriter (depth + 1)).dumps (cursorValues device session offset) = .ok printed := by
    simp only [Writer.dumps, canonicalWriter, cursorValues, Writer.print, List.mapM_cons, List.mapM_nil,
      hrevision, hlast, quote_plain hid.plain, quote_plain (name_plain device)]
    rfl
  have hplain : (cursorValues device session offset).Plain (.standard depth float)
      (canonicalWriter (depth + 1)) (depth + 1) := cursorValues_plain _ _ _ hid
  have hascii : Ascii printed := print_ascii rfl (separator_ascii (by norm_num) ⟨[], rfl, by simp⟩)
    (separator_ascii (by norm_num) ⟨[], rfl, by simp⟩) hprint hplain.leaves
  refine ⟨printed.map UInt8.ofNat, ?_, ?_⟩
  · apply ofJson_eq_ok.mpr
    rw [Writer.dumpsBytes, hprint, ok_bind, encodeUtf8_ascii hascii]
    rfl
  · have hlength : printed.length = 49 + revision.length + last.length := by
      simp only [printed, List.intercalate_cons_cons, List.intercalate_singleton, List.length_cons,
        List.length_append, List.length_nil, name_length, hid.1]
      omega
    rw [List.length_map, hlength]
    omega

end Payload

section Offset
variable {p : Process} {device device' : Device} {session session' : Session} {k k' : ℕ} {c : Text}

/-- The last 32 bytes are the MAC of what is in front of them. -/
theorem split_mac (p : Process) (payload : Bytes) :
    (payload ++ p.mac payload).take ((payload ++ p.mac payload).length - 32) = payload ∧
      (payload ++ p.mac payload).drop ((payload ++ p.mac payload).length - 32) = p.mac payload := by
  have hlength : (payload ++ p.mac payload).length - 32 = payload.length := by
    rw [List.length_append, p.mac_size]
    omega
  rw [hlength]
  exact ⟨List.take_left' rfl, List.drop_left' rfl⟩

/-- A string whose payload carries its MAC. -/
def Authentic (p : Process) (c : Text) (payload : Bytes) : Prop :=
  b64decode true c = some (payload ++ p.mac payload)

/-- `offset` past its length check and its MAC check. -/
theorem offset_authentic {payload : Bytes} (hsize : c.length ≤ 512) (h : Authentic p c payload) :
    offset p c device session = match p.codec.loads (.bytes payload) with
      | .ok values => checkValues p device session values
      | .error (.valueError _) | .error .typeError => .error (.valueError "invalid cursor")
      | .error failure => .error failure := by
  obtain ⟨htake, hdrop⟩ := split_mac p payload
  rw [offset, if_neg (by omega), h]
  simp only [htake, hdrop, ne_eq, not_true_eq_false, if_false]
  rfl

/-- Every other string is a `ValueError`. -/
theorem offset_not_authentic (h : c.length > 512 ∨ ∀ payload, ¬ Authentic p c payload) :
    ∃ message, offset p c device session = .error (.valueError message) := by
  unfold offset
  split_ifs with hsize
  · exact ⟨_, rfl⟩
  · have hfake : ∀ payload, ¬ Authentic p c payload := h.resolve_left hsize
    split
    · exact ⟨_, rfl⟩
    · next raw hraw =>
      dsimp only
      rw [if_pos]
      · exact ⟨_, rfl⟩
      · intro hmac
        apply hfake (raw.take (raw.length - 32))
        rw [Authentic, hraw, ← hmac, List.take_append_drop]

theorem checkValues_cursorValues :
    checkValues p device session (cursorValues device' session' k') = .ok k ↔
      device' = device ∧ session'.id = session.id ∧
      session'.snapshot.revision = session.snapshot.revision ∧ k' = k ∧ 1 ≤ k ∧
      k < session.snapshot.rules.length := by
  have hname : device'.name = device.name ↔ device' = device := ⟨name_injective, fun h => h ▸ rfl⟩
  simp only [cursorValues, checkValues, Json.isOneOf, equalsInt, List.mem_singleton, decide_eq_true_eq,
    hname, throw_eq_error, pure_eq_ok]
  split_ifs with h
  · simp only [Int.toNat_natCast, Except.ok.injEq]
    constructor
    · rintro rfl
      exact ⟨h.1, h.2.1, h.2.2.1, rfl, by omega, by omega⟩
    · rintro ⟨-, -, -, rfl, -, -⟩
      rfl
  · simp only [false_iff]
    rintro ⟨h1, h2, h3, rfl, h4, h5⟩
    exact h ⟨h1, h2, h3, by omega, by omega⟩

theorem cursor_eq_ok : cursor p device session k = .ok c ↔
    ∃ payload, p.codec.canonical (cursorValues device session k) = .ok payload ∧
      b64encode true (payload ++ p.mac payload) = c := by
  simp only [cursor, bind_eq_ok, pure_eq_ok, Except.ok.injEq]

/-- A cursor is authentic, with the payload it was made from. -/
theorem cursor_authentic (h : cursor p device session k = .ok c) :
    ∃ payload, p.codec.canonical (cursorValues device session k) = .ok payload ∧ Authentic p c payload := by
  obtain ⟨payload, hpayload, rfl⟩ := cursor_eq_ok.mp h
  exact ⟨payload, hpayload, b64decode_b64encode true _⟩

theorem authentic_unique {payload payload' : Bytes} (h : Authentic p c payload)
    (h' : Authentic p c payload') : payload = payload' := by
  have heq : payload ++ p.mac payload = payload' ++ p.mac payload' := Option.some.inj (h.symm.trans h')
  exact (List.append_inj' heq (by rw [p.mac_size, p.mac_size])).1

/-- `offset` on a string that carries the payload of an issued cursor. -/
theorem offset_issued {i : Interpreter} {payload : Bytes} (hid : IdText session'.id)
    (hpayload : i.process.codec.canonical (cursorValues device' session' k') = .ok payload)
    (h : Authentic i.process c payload) :
    (∀ k, offset i.process c device session = .ok k ↔ c.length ≤ 512 ∧ device' = device ∧
      session'.id = session.id ∧ session'.snapshot.revision = session.snapshot.revision ∧ k' = k ∧
      1 ≤ k ∧ k < session.snapshot.rules.length) ∧
    ∀ failure, offset i.process c device session = .error failure → ∃ message, failure = .valueError message := by
  by_cases hsize : c.length ≤ 512
  · have hloads : i.process.codec.loads (.bytes payload) = .ok (cursorValues device' session' k') :=
      loads_payload hid hpayload
    rw [offset_authentic hsize h, hloads]
    refine ⟨fun k => ?_, fun failure hfailure => ?_⟩
    · simp only [checkValues_cursorValues, hsize, true_and]
    · simp only [cursorValues, checkValues, throw_eq_error, pure_eq_ok] at hfailure
      split_ifs at hfailure
      exact ⟨_, (Except.error.inj hfailure).symm⟩
  · obtain ⟨message, hmessage⟩ :=
      @offset_not_authentic i.process device session _ (Or.inl (not_le.mp hsize))
    rw [hmessage]
    constructor
    · intro k
      simp only [hsize, false_and, iff_false]
      rintro ⟨⟩
    · intro failure hfailure
      exact ⟨message, (Except.error.inj hfailure).symm⟩

/-- Cursors of small revisions lead back to their offset. -/
theorem cursor_round_trip (i : Interpreter) (device : Device) (hid : IdText session.id)
    (hlow : 0 ≤ session.snapshot.revision) (hhigh : session.snapshot.revision < 2 ^ 63)
    (hrules : session.snapshot.rules.length < 2 ^ 63) (hk : 1 ≤ k) (hk' : k < session.snapshot.rules.length) :
    ∃ c, cursor i.process device session k = .ok c ∧ c ≠ [] ∧
      offset i.process c device session = .ok k := by
  obtain ⟨payload, hpayload, hlength⟩ := @canonical_values i.spare i.float i.sha256 device _ k hid hlow hhigh (by omega)
  refine ⟨b64encode true (payload ++ i.mac payload), cursor_eq_ok.mpr ⟨payload, hpayload, rfl⟩, ?_, ?_⟩
  · intro hempty
    have hdecode := b64decode_b64encode true (payload ++ i.mac payload)
    rw [hempty] at hdecode
    have hnil : payload ++ i.mac payload = [] := (Option.some.inj hdecode).symm
    have hmac := i.mac_size payload
    rw [(List.append_eq_nil_iff.mp hnil).2] at hmac
    cases hmac
  · have hauthentic : Authentic i.process (b64encode true (payload ++ i.mac payload)) payload :=
      b64decode_b64encode true _
    refine ((offset_issued hid hpayload hauthentic).1 k).mpr ⟨?_, rfl, rfl, rfl, rfl, hk, hk'⟩
    rw [b64encode_length, List.length_append, i.mac_size]
    omega

end Offset

end Sync
