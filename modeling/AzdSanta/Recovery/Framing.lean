import AzdSanta.PowerShell.Comparison
import AzdSanta.PowerShell.Utf16
import AzdSanta.Python.JsonRoundTrip
import AzdSanta.Recovery.Seal

/-! The bytes under the target digest and the associated data of an envelope. The host, the recovery
command and the client each build them by themselves. -/
namespace Recovery
open Python Setup PowerShell Checks

/-- What `target_digest` hashes. -/
def targetInput (username email : Text) : Option Bytes := do
  let first ← encodeUtf8 username
  let second ← encodeUtf8 email
  guard (first.length ≤ 2048 ∧ second.length ≤ 2048)
  return packLength first.length ++ first ++ (packLength second.length ++ second)

/-- The client's machine. -/
structure Machine where
  /-- `BitConverter.IsLittleEndian`. -/
  littleEndian : Bool
  /-- `ToHexStringLower(SHA256.HashData(raw))`. -/
  sha : Bytes → Text

/-- `BitConverter.GetBytes([uint32] n)`. -/
def Machine.getBytes (m : Machine) (n : ℕ) : Bytes :=
  let little : Bytes := [.ofNat n, .ofNat (n / 256), .ofNat (n / 65536), .ofNat (n / 16777216)]
  if m.littleEndian then little else little.reverse

/-- One turn of the loop in `Get-SantaSetupTargetDigest`. -/
def Machine.addValue (m : Machine) (buffer : Bytes) (value : List ℕ) : Option Bytes := do
  let bytes := utf8GetBytes value
  guard (bytes.length ≤ 2048)
  let length := m.getBytes bytes.length
  let length := if m.littleEndian then length.reverse else length
  return buffer ++ length ++ bytes

/-- `Get-SantaSetupTargetDigest`; a mandatory string is not empty. -/
def Machine.getSantaSetupTargetDigest (m : Machine) (username email : List ℕ) : Option Text := do
  guard (username ≠ [] ∧ email ≠ [])
  let buffer ← [username, email].foldlM m.addValue []
  return m.sha buffer

/-- What the client expects of an envelope. -/
structure Expectation where
  mode : Text
  context : Text
  targetDigest : Text
  deriving DecidableEq

/-- The fields of an envelope that name what it is for. -/
structure Header where
  scope : Text
  version : ℤ
  algorithm : Text
  kid : Text
  mode : Text
  context : Text
  target : Text

/-- The fields, as `GetProperty` finds them. -/
def readHeader (envelope : Members) : Option Header := do
  let scope ← stringField envelope "scope"
  let .int version ← field envelope "version" | none
  return ⟨scope, version, ← stringField envelope "algorithm", ← stringField envelope "kid_sha256",
    ← stringField envelope "mode", ← stringField envelope "context_sha256", ← stringField envelope "target_sha256"⟩

/-- `^[a-f0-9]{64}$` without regard to case; `$` also stands before a last newline. -/
def isDigestPattern (s : Text) : Bool :=
  let line := if s.getLast? = some 10 then s.dropLast else s
  line.length = 64 && line.all fun c => isLowerHex (lowerAscii c)

/-- `Encoding.ASCII.GetBytes`; every other code unit becomes a question mark. -/
def asciiGetBytes (s : Text) : Bytes := (utf16 s).map fun u => if u < 128 then .ofNat u else 63

/-- The associated data of `Receive-SantaSetupEnvelope`, with the checks on what goes into it. -/
def receiverAssociated (c : Comparison) (m : Machine) (der : Bytes) (expected : Expectation) (envelope : Members) :
    Option Bytes := do
  guard (modes.any fun mode => c.eq expected.mode mode)
  guard (isDigestPattern expected.context ∧ isDigestPattern expected.targetDigest)
  let header ← readHeader envelope
  let kid := m.sha der
  guard (c.ceq header.scope (text "azd-santa-sealed-setup") ∧ header.version = 1 ∧
    c.ceq header.algorithm (text "RSA-OAEP-256+A256GCM") ∧ c.ceq header.kid kid ∧ c.ceq header.mode expected.mode ∧
    c.ceq header.context expected.context ∧ c.ceq header.target expected.targetDigest)
  return asciiGetBytes (text "azd-santa-operator-setup/v1|RSA-OAEP-256+A256GCM|" ++ expected.mode ++ 124 :: kid ++
    124 :: expected.context ++ 124 :: expected.targetDigest)

section Target
variable {username email username' email' : Text}

theorem length_packLength (n : ℕ) : (packLength n).length = 4 := rfl

theorem ofNat_inj_mod {m n : ℕ} (h : UInt8.ofNat m = UInt8.ofNat n) : m % 256 = n % 256 := by
  simpa [UInt8.toNat_ofNat'] using congrArg UInt8.toNat h

theorem packLength_injective {m n : ℕ} (hm : m < 4294967296) (hn : n < 4294967296)
    (h : packLength m = packLength n) : m = n := by
  simp only [packLength, List.cons.injEq, and_true] at h
  obtain ⟨hfirst, hsecond, hthird, hlast⟩ := h
  have h1 := ofNat_inj_mod hfirst
  have h2 := ofNat_inj_mod hsecond
  have h3 := ofNat_inj_mod hthird
  have h4 := ofNat_inj_mod hlast
  omega

/-- A field and what follows it can be told apart by the length before the field. -/
theorem frame_injective {first first' rest rest' : Bytes} (hfirst : first.length < 4294967296)
    (hfirst' : first'.length < 4294967296)
    (h : packLength first.length ++ first ++ rest = packLength first'.length ++ first' ++ rest') :
    first = first' ∧ rest = rest' := by
  rw [List.append_assoc, List.append_assoc] at h
  obtain ⟨hlength, h⟩ := List.append_inj h rfl
  exact List.append_inj h (packLength_injective hfirst hfirst' hlength)

theorem targetInput_eq_some {bytes : Bytes} (h : targetInput username email = some bytes) :
    ∃ first second, encodeUtf8 username = some first ∧ encodeUtf8 email = some second ∧
      first.length ≤ 2048 ∧ second.length ≤ 2048 ∧
      bytes = packLength first.length ++ first ++ (packLength second.length ++ second) := by
  obtain ⟨first, hfirst, h⟩ := Option.bind_eq_some_iff.mp h
  obtain ⟨second, hsecond, h⟩ := Option.bind_eq_some_iff.mp h
  obtain ⟨hsize, h⟩ := guard_bind_eq_some.mp h
  exact ⟨first, second, hfirst, hsecond, hsize.1, hsize.2, (Option.some.inj h).symm⟩

theorem targetInput_injective {bytes : Bytes} (h : targetInput username email = some bytes)
    (h' : targetInput username' email' = some bytes) : username = username' ∧ email = email' := by
  obtain ⟨first, second, hfirst, hsecond, hsize, hsize2, rfl⟩ := targetInput_eq_some h
  obtain ⟨first', second', hfirst', hsecond', hsize', hsize2', hbytes⟩ := targetInput_eq_some h'
  obtain ⟨rfl, hrest⟩ := frame_injective (by omega) (by omega) hbytes
  have hrest' : packLength second.length ++ second ++ [] = packLength second'.length ++ second' ++ [] := by
    simpa using hrest
  obtain ⟨rfl, -⟩ := frame_injective (by omega) (by omega) hrest'
  exact ⟨encodeUtf8_injective hfirst hfirst', encodeUtf8_injective hsecond hsecond'⟩

theorem targetDigest_eq_map (lib : Library) (username email : Text) :
    lib.targetDigest username email = (targetInput username email).map lib.sha := by
  unfold Library.targetDigest targetInput
  cases encodeUtf8 username with
  | none => rfl
  | some first =>
    cases encodeUtf8 email with
    | none => rfl
    | some second =>
      by_cases hsize : first.length ≤ 2048 ∧ second.length ≤ 2048
      · simp [guard, hsize]
      · simp [guard, hsize, failure]

theorem reversed_getBytes (m : Machine) (n : ℕ) :
    (if m.littleEndian then (m.getBytes n).reverse else m.getBytes n) = packLength n := by
  unfold Machine.getBytes packLength
  cases m.littleEndian <;> rfl

/-- A well-formed string of at most 2048 bytes. -/
structure Bounded (t : Text) : Prop where
  scalar : ∀ c ∈ t, isScalar c = true
  size : (t.flatMap utf8Char).length ≤ 2048

theorem Bounded.encode {t : Text} (ht : Bounded t) : encodeUtf8 t = some (t.flatMap utf8Char) :=
  encodeUtf8_scalars ht.scalar

theorem addValue_bounded (m : Machine) (buffer : Bytes) {t : Text} (ht : Bounded t) :
    m.addValue buffer (utf16 t) =
      some (buffer ++ (packLength (t.flatMap utf8Char).length ++ t.flatMap utf8Char)) := by
  unfold Machine.addValue
  rw [utf8GetBytes_utf16 ht.scalar]
  apply guard_bind_eq_some.mpr
  refine ⟨ht.size, ?_⟩
  dsimp only
  rw [reversed_getBytes, List.append_assoc]
  rfl

/-- The bytes of a pair of bounded strings. -/
theorem targetInput_bounded (hu : Bounded username) (he : Bounded email) :
    targetInput username email = some (packLength (username.flatMap utf8Char).length ++ username.flatMap utf8Char ++
      (packLength (email.flatMap utf8Char).length ++ email.flatMap utf8Char)) := by
  unfold targetInput
  rw [hu.encode, he.encode]
  exact guard_bind_eq_some.mpr ⟨⟨hu.size, he.size⟩, rfl⟩

theorem target_bounded (h : Host) (hu : Bounded username) (he : Bounded email) :
    h.target username email = some (h.sha (packLength (username.flatMap utf8Char).length ++
      username.flatMap utf8Char ++ (packLength (email.flatMap utf8Char).length ++ email.flatMap utf8Char))) := by
  unfold Host.target
  rw [hu.encode, he.encode]
  rfl

theorem getSantaSetupTargetDigest_bounded (m : Machine) (hu : Bounded username) (he : Bounded email)
    (hune : username ≠ []) (hene : email ≠ []) :
    m.getSantaSetupTargetDigest (utf16 username) (utf16 email) =
      some (m.sha (packLength (username.flatMap utf8Char).length ++ username.flatMap utf8Char ++
        (packLength (email.flatMap utf8Char).length ++ email.flatMap utf8Char))) := by
  have hfull : utf16 username ≠ [] ∧ utf16 email ≠ [] :=
    ⟨fun h => hune (utf16_eq_nil.mp h), fun h => hene (utf16_eq_nil.mp h)⟩
  apply guard_bind_eq_some.mpr
  refine ⟨hfull, ?_⟩
  simp only [List.foldlM_cons, List.foldlM_nil, addValue_bounded m _ hu, Option.bind_eq_bind, Option.bind_some,
    addValue_bounded m _ he, List.nil_append]
  rfl

end Target

section Associated
variable {mode kid context target mode' kid' context' target' : Text} {lib : Library}

/-- What `prepare_recipient` lets into the associated data. -/
structure Admitted (mode kid context target : Text) : Prop where
  mode : mode ∈ modes
  kid : isHex 64 kid = true
  context : isHex 64 context = true
  target : isHex 64 target = true

/-- The text of the associated data. -/
def associatedText (mode kid context target : Text) : Text :=
  text "azd-santa-operator-setup/v1|" ++ algorithm ++ 124 :: mode ++ 124 :: kid ++ 124 :: context ++ 124 :: target

theorem length_of_isHex {n : ℕ} {s : Text} (h : isHex n s = true) : s.length = n := by
  simp only [isHex, Bool.and_eq_true, decide_eq_true_eq] at h
  exact h.1

theorem isPrintable_of_isHex {n : ℕ} {s : Text} (h : isHex n s = true) : s.all isPrintable = true := by
  simp only [isHex, Bool.and_eq_true, List.all_eq_true] at h
  apply List.all_eq_true.mpr
  intro c hc
  have hhex := h.2 c hc
  simp only [isLowerHex, isDigit, Bool.or_eq_true, Bool.and_eq_true, decide_eq_true_eq] at hhex
  simp only [isPrintable, Bool.and_eq_true, decide_eq_true_eq]
  omega

theorem isPrintable_of_mode (h : mode ∈ modes) : mode.all isPrintable = true := by
  simp only [modes, List.mem_cons, List.not_mem_nil, or_false] at h
  obtain rfl | rfl := h <;> decide

theorem Admitted.printable (h : Admitted mode kid context target) :
    (associatedText mode kid context target).all isPrintable = true := by
  simp only [associatedText, List.all_append, List.all_cons, isPrintable_of_mode h.mode, isPrintable_of_isHex h.kid,
    isPrintable_of_isHex h.context, isPrintable_of_isHex h.target, Bool.and_true]
  decide

theorem ascii_of_printable {s : Text} (h : s.all isPrintable = true) : Ascii s := by
  intro c hc
  have hprintable := List.all_eq_true.mp h c hc
  simp only [isPrintable, Bool.and_eq_true, decide_eq_true_eq] at hprintable
  omega

theorem associated_eq (h : Admitted mode kid context target) :
    associated mode kid context target = some ((associatedText mode kid context target).map UInt8.ofNat) := by
  have hascii := ascii_of_printable h.printable
  have hall : (associatedText mode kid context target).all (· < 128) = true := by
    apply List.all_eq_true.mpr
    intro c hc
    exact decide_eq_true (hascii c hc).2
  unfold associated
  rw [← associatedText, if_pos hall, encodeUtf8_ascii hascii]

theorem associatedText_injective (h : Admitted mode kid context target)
    (h' : Admitted mode' kid' context' target')
    (heq : associatedText mode kid context target = associatedText mode' kid' context' target') :
    mode = mode' ∧ kid = kid' ∧ context = context' ∧ target = target' := by
  have hlength {s s' : Text} (hs : isHex 64 s = true) (hs' : isHex 64 s' = true) :
      (124 :: s).length = (124 :: s').length := by
    rw [List.length_cons, List.length_cons, length_of_isHex hs, length_of_isHex hs']
  obtain ⟨heq, htarget⟩ := List.append_inj' heq (hlength h.target h'.target)
  obtain ⟨heq, hcontext⟩ := List.append_inj' heq (hlength h.context h'.context)
  obtain ⟨heq, hkid⟩ := List.append_inj' heq (hlength h.kid h'.kid)
  have hmode := List.append_cancel_left heq
  exact ⟨(List.cons.inj hmode).2, (List.cons.inj hkid).2, (List.cons.inj hcontext).2, (List.cons.inj htarget).2⟩

theorem associated_injective (h : Admitted mode kid context target) (h' : Admitted mode' kid' context' target')
    (heq : associated mode kid context target = associated mode' kid' context' target') :
    mode = mode' ∧ kid = kid' ∧ context = context' ∧ target = target' := by
  have hbytes : encodeUtf8 (associatedText mode kid context target) =
      encodeUtf8 (associatedText mode' kid' context' target') := by
    rw [encodeUtf8_ascii (ascii_of_printable h.printable), encodeUtf8_ascii (ascii_of_printable h'.printable),
      ← associated_eq h, ← associated_eq h', heq]
  apply associatedText_injective h h'
  exact encodeUtf8_injective (encodeUtf8_ascii (ascii_of_printable h.printable))
    (hbytes ▸ encodeUtf8_ascii (ascii_of_printable h.printable))

theorem prepareRecipient_admitted (hsha : ∀ raw, isHex 64 (lib.sha raw) = true)
    {publicKey username email setupOrigin : Text} {r : Recipient}
    (h : lib.prepareRecipient publicKey context mode username email setupOrigin = some r) :
    Admitted r.mode r.kid r.context r.target ∧ r.kid = lib.sha r.key.der := by
  obtain ⟨⟨hmode, hcontext⟩, h⟩ := guard_bind_eq_some.mp h
  obtain ⟨-, h⟩ := guard_bind_eq_some.mp h
  obtain ⟨raw, -, h⟩ := Option.bind_eq_some_iff.mp h
  obtain ⟨-, h⟩ := guard_bind_eq_some.mp h
  obtain ⟨key, -, h⟩ := Option.bind_eq_some_iff.mp h
  obtain ⟨⟨-, -, -, hder⟩, h⟩ := guard_bind_eq_some.mp h
  obtain ⟨digest, hdigest, h⟩ := Option.bind_eq_some_iff.mp h
  obtain ⟨origin, -, h⟩ := Option.bind_eq_some_iff.mp h
  obtain ⟨sealed, -, h⟩ := Option.bind_eq_some_iff.mp h
  obtain rfl := Option.some.inj h
  rw [targetDigest_eq_map] at hdigest
  obtain ⟨bytes, -, rfl⟩ := Option.map_eq_some_iff.mp hdigest
  exact ⟨⟨hmode, hsha raw, hcontext, hsha bytes⟩, by rw [hder]⟩

theorem readHeader_encrypt {r : Recipient} {probe : Bool} {payload : Payload} {members : Members}
    (h : r.encrypt lib probe payload = some (.obj members)) :
    readHeader members = some ⟨text "azd-santa-sealed-setup", 1, algorithm, r.kid, r.mode, r.context, r.target⟩ := by
  obtain ⟨data, -, h⟩ := Option.bind_eq_some_iff.mp h
  obtain ⟨aad, -, h⟩ := Option.bind_eq_some_iff.mp h
  obtain ⟨printed, -, h⟩ := Option.bind_eq_some_iff.mp h
  obtain ⟨-, h⟩ := guard_bind_eq_some.mp h
  obtain rfl := Json.obj.inj (Option.some.inj h)
  rfl

theorem ceq_iff (c : Comparison) {a b : Text} (ha : a.all isPrintable = true) (hb : b.all isPrintable = true) :
    c.ceq a b = true ↔ a = b := by
  constructor
  · exact c.cascii a b ha hb
  · rintro rfl
    exact c.crefl a

theorem utf16_ascii {s : Text} (h : Ascii s) : utf16 s = s := by
  induction s with
  | nil => rfl
  | cons c s ih =>
    have hc := h c List.mem_cons_self
    have hunits : unitsOf c = [c] := by
      unfold unitsOf
      rw [if_pos (by omega)]
    show unitsOf c ++ utf16 s = c :: s
    rw [hunits, ih fun c hc => h c (List.mem_cons_of_mem _ hc)]
    rfl

theorem asciiGetBytes_ascii {s : Text} (h : Ascii s) : asciiGetBytes s = s.map UInt8.ofNat := by
  unfold asciiGetBytes
  rw [utf16_ascii h]
  apply List.map_congr_left
  intro c hc
  rw [if_pos (h c hc).2]

theorem isDigestPattern_of_isHex {s : Text} (h : isHex 64 s = true) : isDigestPattern s = true := by
  have hall : ∀ c ∈ s, isLowerHex c = true := by
    simp only [isHex, Bool.and_eq_true, List.all_eq_true] at h
    exact h.2
  have hlast : s.getLast? ≠ some 10 := by
    intro hlast
    exact absurd (hall 10 (List.mem_of_getLast? hlast)) (by decide)
  have hlower : ∀ c ∈ s, isLowerHex (lowerAscii c) = true := by
    intro c hc
    have hhex := hall c hc
    have hsame : lowerAscii c = c := by
      simp only [isLowerHex, isDigit, Bool.or_eq_true, Bool.and_eq_true, decide_eq_true_eq] at hhex
      unfold lowerAscii
      rw [if_neg (by omega)]
    rw [hsame, hhex]
  simp only [isDigestPattern, if_neg hlast, Bool.and_eq_true, decide_eq_true_eq, List.all_eq_true]
  exact ⟨length_of_isHex h, hlower⟩

/-- The client rebuilds the associated data of the envelopes it expects, and of no other. -/
theorem receiverAssociated_encrypt (c : Comparison) (m : Machine) {r : Recipient} {probe : Bool} {payload : Payload}
    {members : Members} (hr : Admitted r.mode r.kid r.context r.target) (hkid : r.kid = m.sha r.key.der)
    (hsealed : r.encrypt lib probe payload = some (.obj members)) (expected : Expectation)
    (hexpected : Admitted expected.mode r.kid expected.context expected.targetDigest) :
    receiverAssociated c m r.key.der expected members =
      if expected = ⟨r.mode, r.context, r.target⟩ then associated r.mode r.kid r.context r.target else none := by
  have hmode : (modes.any fun mode => c.eq expected.mode mode) = true :=
    List.any_eq_true.mpr ⟨expected.mode, hexpected.mode, c.refl _⟩
  have hbound : (c.ceq (text "azd-santa-sealed-setup") (text "azd-santa-sealed-setup") ∧ (1 : ℤ) = 1 ∧
      c.ceq algorithm (text "RSA-OAEP-256+A256GCM") ∧ c.ceq r.kid (m.sha r.key.der) ∧ c.ceq r.mode expected.mode ∧
      c.ceq r.context expected.context ∧ c.ceq r.target expected.targetDigest) ↔
      expected = ⟨r.mode, r.context, r.target⟩ := by
    rw [ceq_iff c (isPrintable_of_mode hr.mode) (isPrintable_of_mode hexpected.mode),
      ceq_iff c (isPrintable_of_isHex hr.context) (isPrintable_of_isHex hexpected.context),
      ceq_iff c (isPrintable_of_isHex hr.target) (isPrintable_of_isHex hexpected.target), hkid]
    constructor
    · rintro ⟨-, -, -, -, hmode, hcontext, htarget⟩
      rw [hmode, hcontext, htarget]
    · rintro rfl
      exact ⟨c.crefl _, rfl, c.crefl _, c.crefl _, rfl, rfl, rfl⟩
  by_cases hsame : expected = ⟨r.mode, r.context, r.target⟩
  · rw [if_pos hsame, associated_eq hr, ← asciiGetBytes_ascii (ascii_of_printable hr.printable)]
    apply guard_bind_eq_some.mpr
    refine ⟨hmode, ?_⟩
    apply guard_bind_eq_some.mpr
    refine ⟨⟨isDigestPattern_of_isHex hexpected.context, isDigestPattern_of_isHex hexpected.target⟩, ?_⟩
    apply Option.bind_eq_some_iff.mpr
    refine ⟨_, readHeader_encrypt hsealed, ?_⟩
    apply guard_bind_eq_some.mpr
    refine ⟨hbound.mpr hsame, ?_⟩
    rw [hsame, ← hkid]
    rfl
  · rw [if_neg hsame]
    apply Option.eq_none_iff_forall_ne_some.mpr
    intro bytes hbytes
    obtain ⟨-, hbytes⟩ := guard_bind_eq_some.mp hbytes
    obtain ⟨-, hbytes⟩ := guard_bind_eq_some.mp hbytes
    obtain ⟨header, hheader, hbytes⟩ := Option.bind_eq_some_iff.mp hbytes
    obtain rfl := Option.some.inj ((readHeader_encrypt hsealed).symm.trans hheader)
    obtain ⟨hpassed, -⟩ := guard_bind_eq_some.mp hbytes
    exact hsame (hbound.mp hpassed)

end Associated

/-- The framing of the two identities and of the associated data. -/
theorem target_encoding (lib : Library) (hsha : ∀ raw, isHex 64 (lib.sha raw) = true) (c : Comparison) :
    (∀ username email username' email' bytes, targetInput username email = some bytes →
      targetInput username' email' = some bytes → username = username' ∧ email = email') ∧
    (∀ username email, Bounded username → Bounded email → ∃ bytes, targetInput username email = some bytes ∧
      lib.targetDigest username email = some (lib.sha bytes) ∧
      (∀ h : Host, h.target username email = some (h.sha bytes)) ∧
      (username ≠ [] → email ≠ [] →
        ∀ m : Machine, m.getSantaSetupTargetDigest (utf16 username) (utf16 email) = some (m.sha bytes))) ∧
    (∀ publicKey context mode username email setupOrigin r,
      lib.prepareRecipient publicKey context mode username email setupOrigin = some r →
      Admitted r.mode r.kid r.context r.target ∧
      ∀ probe payload members, r.encrypt lib probe payload = some (.obj members) →
        ∀ m : Machine, m.sha = lib.sha → ∀ expected : Expectation,
          Admitted expected.mode r.kid expected.context expected.targetDigest →
          receiverAssociated c m r.key.der expected members =
            if expected = ⟨r.mode, r.context, r.target⟩ then associated r.mode r.kid r.context r.target else none) ∧
    ∀ mode kid context target mode' kid' context' target', Admitted mode kid context target →
      Admitted mode' kid' context' target' →
      (associated mode kid context target).isSome ∧
      (associated mode kid context target = associated mode' kid' context' target' →
        mode = mode' ∧ kid = kid' ∧ context = context' ∧ target = target') := by
  refine ⟨fun username email username' email' bytes => targetInput_injective, fun username email hu he => ?_,
    fun publicKey context mode username email setupOrigin r hr => ?_, fun _ _ _ _ _ _ _ _ h h' => ?_⟩
  · refine ⟨_, targetInput_bounded hu he, ?_, fun h => target_bounded h hu he, fun hune hene m => ?_⟩
    · rw [targetDigest_eq_map, targetInput_bounded hu he]
      rfl
    · exact getSantaSetupTargetDigest_bounded m hu he hune hene
  · obtain ⟨hadmitted, hkid⟩ := prepareRecipient_admitted hsha hr
    refine ⟨hadmitted, fun probe payload members hsealed m hm expected hexpected => ?_⟩
    exact receiverAssociated_encrypt c m hadmitted (hm ▸ hkid) hsealed expected hexpected
  · rw [associated_eq h]
    exact ⟨rfl, fun heq => associated_injective h h' (by rw [associated_eq h, heq])⟩

/-- SHA-256 of the one input, in hexadecimal. -/
def letterSha (raw : Bytes) : Text :=
  if raw = [0, 0, 0, 1, 97, 0, 0, 0, 1, 98] then
    text "16275ef0f5d0eb9dd9e0a53277549fda5c886358a6872df23c797b13e11455bc"
  else List.replicate 64 48

def letterLibrary : Library where
  sha := letterSha
  urlsplit _ := none
  loadKey _ := none
  aesGcm _ _ data _ := data
  dataKey _ := List.replicate 32 0
  nonce _ := List.replicate 12 0
  room := 1000

theorem letterSha_isHex (raw : Bytes) : isHex 64 (letterSha raw) = true := by
  unfold letterSha
  split_ifs <;> decide

theorem target_encoding_letters :
    (∃ bytes, targetInput (text "a") (text "b") = some bytes ∧
      letterLibrary.targetDigest (text "a") (text "b") = some (letterLibrary.sha bytes) ∧
      (∀ h : Host, h.target (text "a") (text "b") = some (h.sha bytes)) ∧
      (text "a" ≠ [] → text "b" ≠ [] → ∀ m : Machine,
        m.getSantaSetupTargetDigest (utf16 (text "a")) (utf16 (text "b")) = some (m.sha bytes))) ∧
    letterLibrary.targetDigest (text "a") (text "b") =
      some (text "16275ef0f5d0eb9dd9e0a53277549fda5c886358a6872df23c797b13e11455bc") :=
  ⟨(target_encoding letterLibrary letterSha_isHex .ordinal).2.1 _ _ ⟨by decide, by decide⟩ ⟨by decide, by decide⟩,
    by decide⟩

end Recovery
