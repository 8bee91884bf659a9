import AzdSanta.Common.Unique
import AzdSanta.Python.JsonExtend
import AzdSanta.Setup.Host

/-! What the host program accepts: requests that are told apart by their bytes, and envelopes that
pass the same check again. -/
namespace Setup
open Python Checks

section Fields

theorem stringField_eq_some {members : Members} {key : String} {s : Text} :
    stringField members key = some s ↔ field members key = some (.str s) := by
  unfold stringField
  split
  · next found => simp [found]
  · next hnot =>
    simp only [reduceCtorEq, false_iff]
    exact fun h => hnot s h

theorem hasFields_mem {members : Members} {names : List Text} (h : hasFields members names = true)
    {m : Text × Json} (hm : m ∈ members) : m.1 ∈ names := by
  simp only [hasFields, Bool.and_eq_true, List.all_eq_true, decide_eq_true_eq] at h
  exact h.1 m.1 (List.mem_map_of_mem hm)

end Fields

section Reader
variable (h : Host)

theorem Host.reader_literal : Literal h.reader where
  constant := by
    intro word v hv
    exact ⟨_, (Except.ok.inj hv).symm⟩
  pairs := by
    intro pairs members hmembers
    simp only [Host.reader, uniquePairs] at hmembers
    split_ifs at hmembers
    exact (Except.ok.inj hmembers).symm

/-- The keys of an object are its own. -/
theorem loads_nodup {input : Text} {members : Members} (hload : h.reader.loads input = .ok (.obj members)) :
    (members.map Prod.fst).Nodup := by
  simp only [Reader.loads, throw_eq_error, check_eq_ok] at hload
  obtain ⟨⟨value, rest⟩, hscan, hload⟩ := bind_eq_ok.mp hload.2
  dsimp only at hload
  split_ifs at hload
  obtain rfl := Except.ok.inj hload
  have hnotWord (input : Text) : scanWord h.reader input ≠ .ok (.obj members, rest) := by
    intro hword
    cases scanWord_isWord h.reader_literal hword
  unfold scanOnce at hscan
  split at hscan
  · obtain ⟨⟨s, after⟩, -, hscan⟩ := bind_eq_ok.mp hscan
    cases (Prod.mk.inj (Except.ok.inj hscan)).1
  · split_ifs at hscan
    exact absurd hscan (hnotWord _)
  · split_ifs at hscan
    · obtain ⟨⟨items, after⟩, -, hscan⟩ := bind_eq_ok.mp hscan
      cases (Prod.mk.inj (Except.ok.inj hscan)).1
    · obtain ⟨⟨pairs, after⟩, -, hscan⟩ := bind_eq_ok.mp hscan
      obtain ⟨kept, hkept, hscan⟩ := bind_eq_ok.mp hscan
      obtain ⟨hobj, -⟩ := Prod.mk.inj (Except.ok.inj hscan)
      obtain rfl := Json.obj.inj hobj
      simp only [Host.reader, uniquePairs] at hkept
      split_ifs at hkept with hnodup
      obtain rfl := Except.ok.inj hkept
      exact hnodup
    · exact absurd hscan (hnotWord _)
  · cases hscan

theorem Host.reader_leaves : LeavesFrom h.reader fun leaf => leaf.hashable = true where
  null := rfl
  bool _ := rfl
  str _ := rfl
  float _ := rfl
  int _ _ _ := rfl
  constant := by
    intro word v d hv
    obtain rfl := Except.ok.inj hv
    exact (Json.Leaves.scalar rfl).mpr rfl
  pairs := by
    intro pairs members hmembers m hm
    exact ⟨m, h.reader_literal.pairs _ _ hmembers ▸ hm, rfl⟩

end Reader

section Requests
variable {h : Host}

/-- What a request has passed: `members` are its fields, with those of the context and of the
binding in it. -/
structure Parsed (h : Host) (value : Text) (members context binding : Members) (request : Request)
    (raw : Bytes) : Prop where
  size : value.length ≤ 16384
  decoded : b64decode false value = some raw
  canonical : b64encode false raw = value
  loaded : ∃ input, decodeUtf8 false raw = some input ∧ h.loads (.str input) = some (.obj members)
  fields : hasFields members requestFields = true
  contextField : field members "context" = some (.obj context)
  bindingField : field context "binding" = some (.obj binding)
  digest : stringField members "context_sha256" = some request.contextSha256
  checked : h.checkContext context binding request.contextSha256 = some ()
  username : stringField members "username" = some request.username
  email : stringField members "email" = some request.email
  reason : stringField members "reason" = some request.reason
  identities : isIdentity 150 request.username = true ∧ isIdentity 254 request.email = true ∧
    isIdentity 256 request.reason = true
  target : stringField context "target_sha256" = some request.targetSha256
  targeted : h.target request.username request.email = some request.targetSha256
  publicKey : stringField members "recipient_public_key" = some request.recipientPublicKey
  recipient : stringField context "recipient_sha256" = some request.recipientSha256
  key : ∃ key, b64decode false request.recipientPublicKey = some key ∧ key.length ≤ 768 ∧
    b64encode false key = request.recipientPublicKey ∧ h.sha key = request.recipientSha256
  bound : checkBinding binding = some ()
  bindings : request.binding = binding
  nonce : stringField context "nonce" = some request.nonce
  mode : stringField context "mode" = some request.mode

theorem requestFromEnvironment_eq_some {value : Text} {request : Request} {raw : Bytes} :
    h.requestFromEnvironment value = some (request, raw) ↔
      ∃ members context binding, Parsed h value members context binding request raw := by
  constructor
  · intro hrequest
    obtain ⟨hsize, hrequest⟩ := guard_bind_eq_some.mp hrequest
    obtain ⟨decoded, hdecoded, hrequest⟩ := Option.bind_eq_some_iff.mp hrequest
    obtain ⟨hcanonical, hrequest⟩ := guard_bind_eq_some.mp hrequest
    obtain ⟨input, hinput, hrequest⟩ := Option.bind_eq_some_iff.mp hrequest
    obtain ⟨loaded, hloaded, hrequest⟩ := Option.bind_eq_some_iff.mp hrequest
    split at hrequest
    · next members =>
      obtain ⟨hfields, hrequest⟩ := guard_bind_eq_some.mp hrequest
      obtain ⟨found, hcontext, hrequest⟩ := Option.bind_eq_some_iff.mp hrequest
      split at hrequest
      · next context =>
        obtain ⟨found', hbinding, hrequest⟩ := Option.bind_eq_some_iff.mp hrequest
        split at hrequest
        · next binding =>
          obtain ⟨digest, hdigest, hrequest⟩ := Option.bind_eq_some_iff.mp hrequest
          obtain ⟨⟨⟩, hchecked, hrequest⟩ := Option.bind_eq_some_iff.mp hrequest
          obtain ⟨username, husername, hrequest⟩ := Option.bind_eq_some_iff.mp hrequest
          obtain ⟨email, hemail, hrequest⟩ := Option.bind_eq_some_iff.mp hrequest
          obtain ⟨reason, hreason, hrequest⟩ := Option.bind_eq_some_iff.mp hrequest
          obtain ⟨hidentities, hrequest⟩ := guard_bind_eq_some.mp hrequest
          obtain ⟨target, htarget, hrequest⟩ := Option.bind_eq_some_iff.mp hrequest
          obtain ⟨target', htargeted, hrequest⟩ := Option.bind_eq_some_iff.mp hrequest
          obtain ⟨htargets, hrequest⟩ := guard_bind_eq_some.mp hrequest
          obtain ⟨publicKey, hpublicKey, hrequest⟩ := Option.bind_eq_some_iff.mp hrequest
          obtain ⟨key, hkey, hrequest⟩ := Option.bind_eq_some_iff.mp hrequest
          obtain ⟨recipient, hrecipient, hrequest⟩ := Option.bind_eq_some_iff.mp hrequest
          obtain ⟨hkeys, hrequest⟩ := guard_bind_eq_some.mp hrequest
          obtain ⟨⟨⟩, hbound, hrequest⟩ := Option.bind_eq_some_iff.mp hrequest
          obtain ⟨nonce, hnonce, hrequest⟩ := Option.bind_eq_some_iff.mp hrequest
          obtain ⟨mode, hmode, hrequest⟩ := Option.bind_eq_some_iff.mp hrequest
          cases hrequest
          exact ⟨members, context, binding, hsize, hdecoded, hcanonical, ⟨input, hinput, hloaded⟩, hfields, hcontext,
            hbinding, hdigest, hchecked, husername, hemail, hreason, hidentities, htarget, htargets ▸ htargeted,
            hpublicKey, hrecipient, ⟨key, hkey, hkeys⟩, hbound, rfl, hnonce, hmode⟩
        · cases hrequest
      · cases hrequest
    · cases hrequest
  · rintro ⟨members, context, binding, hp⟩
    obtain ⟨input, hinput, hloaded⟩ := hp.loaded
    obtain ⟨key, hkey, hkeys⟩ := hp.key
    refine guard_bind_eq_some.mpr ⟨hp.size, ?_⟩
    refine Option.bind_eq_some_iff.mpr ⟨_, hp.decoded, ?_⟩
    refine guard_bind_eq_some.mpr ⟨hp.canonical, ?_⟩
    refine Option.bind_eq_some_iff.mpr ⟨_, hinput, ?_⟩
    refine Option.bind_eq_some_iff.mpr ⟨_, hloaded, ?_⟩
    refine guard_bind_eq_some.mpr ⟨hp.fields, ?_⟩
    refine Option.bind_eq_some_iff.mpr ⟨_, hp.contextField, ?_⟩
    refine Option.bind_eq_some_iff.mpr ⟨_, hp.bindingField, ?_⟩
    refine Option.bind_eq_some_iff.mpr ⟨_, hp.digest, ?_⟩
    refine Option.bind_eq_some_iff.mpr ⟨_, hp.checked, ?_⟩
    refine Option.bind_eq_some_iff.mpr ⟨_, hp.username, ?_⟩
    refine Option.bind_eq_some_iff.mpr ⟨_, hp.email, ?_⟩
    refine Option.bind_eq_some_iff.mpr ⟨_, hp.reason, ?_⟩
    refine guard_bind_eq_some.mpr ⟨hp.identities, ?_⟩
    refine Option.bind_eq_some_iff.mpr ⟨_, hp.target, ?_⟩
    refine Option.bind_eq_some_iff.mpr ⟨_, hp.targeted, ?_⟩
    refine guard_bind_eq_some.mpr ⟨rfl, ?_⟩
    refine Option.bind_eq_some_iff.mpr ⟨_, hp.publicKey, ?_⟩
    refine Option.bind_eq_some_iff.mpr ⟨_, hkey, ?_⟩
    refine Option.bind_eq_some_iff.mpr ⟨_, hp.recipient, ?_⟩
    refine guard_bind_eq_some.mpr ⟨hkeys, ?_⟩
    refine Option.bind_eq_some_iff.mpr ⟨_, hp.bound, ?_⟩
    refine Option.bind_eq_some_iff.mpr ⟨_, hp.nonce, ?_⟩
    refine Option.bind_eq_some_iff.mpr ⟨_, hp.mode, ?_⟩
    rw [← hp.bindings]
    rfl

/-- What the context has passed. -/
structure Checked (h : Host) (context binding : Members) (digest : Text) : Prop where
  keys : context.map Prod.fst = contextFields
  bindingKeys : binding.map Prod.fst = bindings
  bindingStrings : ∀ m ∈ binding, ∃ s, m.2 = .str s
  scope : stringField context "scope" = some (text "azd-santa-setup-request-v1")
  mode : ∃ mode ∈ modes, stringField context "mode" = some mode
  nonce : ∃ nonce, stringField context "nonce" = some nonce ∧ isHex 64 nonce = true
  target : ∃ target, stringField context "target_sha256" = some target ∧ isHex 64 target = true
  recipient : ∃ recipient, stringField context "recipient_sha256" = some recipient ∧ isHex 64 recipient = true
  digestHex : isHex 64 digest = true
  hashed : ∃ raw, h.encoded (.obj context) = some raw ∧ h.sha raw = digest

theorem matches_str (v : Json) : (v matches .str _) = true ↔ ∃ s, v = .str s := by
  cases v <;> simp

theorem checkContext_eq_some {context binding : Members} {digest : Text} :
    h.checkContext context binding digest = some () ↔ Checked h context binding digest := by
  simp only [Host.checkContext, Option.bind_eq_bind, Option.bind_eq_some_iff, Option.guard_eq_some', List.all_eq_true,
    List.all_cons, List.all_nil, Bool.and_true, Bool.and_eq_true, Option.any_eq_true]
  constructor
  · rintro ⟨-, hkeys, -, ⟨hbinding, hstrings⟩, scope, hscope, mode, hmode, -, ⟨rfl, hmodes⟩, -,
      ⟨hnonce, htarget, hrecipient⟩, raw, hraw, hdigest, hsha⟩
    exact ⟨hkeys, hbinding, fun m hm => (matches_str m.2).mp (hstrings m hm), hscope, ⟨mode, hmodes, hmode⟩, hnonce,
      htarget, hrecipient, hdigest, raw, hraw, hsha⟩
  · intro hc
    obtain ⟨mode, hmodes, hmode⟩ := hc.mode
    obtain ⟨raw, hraw, hsha⟩ := hc.hashed
    exact ⟨(), hc.keys, (), ⟨hc.bindingKeys, fun m hm => (matches_str m.2).mpr (hc.bindingStrings m hm)⟩, _, hc.scope,
      mode, hmode, (), ⟨rfl, hmodes⟩, (), ⟨hc.nonce, hc.target, hc.recipient⟩, raw, hraw, hc.digestHex, hsha⟩

/-- Fields that were found are those of the record. -/
theorem Parsed.context_cases {value : Text} {members context binding : Members} {request : Request} {raw : Bytes}
    (hp : Parsed h value members context binding request raw) {m : Text × Json} (hm : m ∈ context) :
    m.2 = .obj binding ∨ ∃ s, m.2 = .str s := by
  have hc := checkContext_eq_some.mp hp.checked
  have hlookup := Unique.lookup_of_mem (hc.keys ▸ by decide) hm
  have hkey : m.1 ∈ contextFields := hc.keys ▸ List.mem_map_of_mem hm
  obtain ⟨mode, -, hmode⟩ := hc.mode
  obtain ⟨nonce, hnonce, -⟩ := hc.nonce
  simp only [contextFields, List.mem_cons, List.not_mem_nil, or_false] at hkey
  rcases hkey with hkey | hkey | hkey | hkey | hkey | hkey <;> rw [hkey] at hlookup
  · exact Or.inr ⟨_, Option.some.inj (hlookup.symm.trans (stringField_eq_some.mp hc.scope))⟩
  · exact Or.inr ⟨_, Option.some.inj (hlookup.symm.trans (stringField_eq_some.mp hnonce))⟩
  · exact Or.inl (Option.some.inj (hlookup.symm.trans hp.bindingField))
  · exact Or.inr ⟨_, Option.some.inj (hlookup.symm.trans (stringField_eq_some.mp hmode))⟩
  · exact Or.inr ⟨_, Option.some.inj (hlookup.symm.trans (stringField_eq_some.mp hp.target))⟩
  · exact Or.inr ⟨_, Option.some.inj (hlookup.symm.trans (stringField_eq_some.mp hp.recipient))⟩

theorem loads_str {input : Text} {v : Json} : h.loads (.str input) = some v ↔ h.reader.loads input = .ok v := by
  simp only [Host.loads]
  cases h.reader.loads input <;> simp [Except.toOption]

theorem Parsed.member_cases {value : Text} {members context binding : Members} {request : Request} {raw : Bytes}
    (hp : Parsed h value members context binding request raw) {m : Text × Json} (hm : m ∈ members) :
    m.2 = .obj context ∨ ∃ s, m.2 = .str s := by
  obtain ⟨input, -, hloaded⟩ := hp.loaded
  have hlookup := Unique.lookup_of_mem (loads_nodup h (loads_str.mp hloaded)) hm
  have hkey := hasFields_mem hp.fields hm
  simp only [requestFields, List.mem_cons, List.not_mem_nil, or_false] at hkey
  rcases hkey with hkey | hkey | hkey | hkey | hkey | hkey <;> rw [hkey] at hlookup
  · exact Or.inl (Option.some.inj (hlookup.symm.trans hp.contextField))
  · exact Or.inr ⟨_, Option.some.inj (hlookup.symm.trans (stringField_eq_some.mp hp.digest))⟩
  · exact Or.inr ⟨_, Option.some.inj (hlookup.symm.trans (stringField_eq_some.mp hp.publicKey))⟩
  · exact Or.inr ⟨_, Option.some.inj (hlookup.symm.trans (stringField_eq_some.mp hp.username))⟩
  · exact Or.inr ⟨_, Option.some.inj (hlookup.symm.trans (stringField_eq_some.mp hp.email))⟩
  · exact Or.inr ⟨_, Option.some.inj (hlookup.symm.trans (stringField_eq_some.mp hp.reason))⟩

/-- The same fields are the same request. -/
theorem Parsed.unique {value value' : Text} {members context binding context' binding' : Members}
    {request request' : Request} {raw raw' : Bytes} (hp : Parsed h value members context binding request raw)
    (hp' : Parsed h value' members context' binding' request' raw') : request = request' := by
  obtain rfl : context = context' := Json.obj.inj (Option.some.inj (hp.contextField.symm.trans hp'.contextField))
  obtain rfl : binding = binding' := Json.obj.inj (Option.some.inj (hp.bindingField.symm.trans hp'.bindingField))
  cases request with
  | mk => cases request' with
    | mk =>
      rw [Request.mk.injEq]
      exact ⟨Option.some.inj (hp.nonce.symm.trans hp'.nonce), hp.bindings.trans hp'.bindings.symm,
        Option.some.inj (hp.mode.symm.trans hp'.mode), Option.some.inj (hp.target.symm.trans hp'.target),
        Option.some.inj (hp.recipient.symm.trans hp'.recipient), Option.some.inj (hp.digest.symm.trans hp'.digest),
        Option.some.inj (hp.publicKey.symm.trans hp'.publicKey),
        Option.some.inj (hp.username.symm.trans hp'.username), Option.some.inj (hp.email.symm.trans hp'.email),
        Option.some.inj (hp.reason.symm.trans hp'.reason)⟩

/-- A request whose bytes are the start of another one's is the same request. -/
theorem request_initial {value value' : Text} {request request' : Request} {raw raw' : Bytes}
    (hrequest : h.requestFromEnvironment value = some (request, raw))
    (hrequest' : h.requestFromEnvironment value' = some (request', raw')) (hraw : raw <+: raw') :
    request = request' := by
  obtain ⟨members, context, binding, hp⟩ := requestFromEnvironment_eq_some.mp hrequest
  obtain ⟨members', context', binding', hp'⟩ := requestFromEnvironment_eq_some.mp hrequest'
  obtain ⟨input, hinput, hloaded⟩ := hp.loaded
  obtain ⟨input', hinput', hloaded'⟩ := hp'.loaded
  have hsame : Json.obj members = .obj members' := loads_initial
    (decodeUtf8_initial hraw hinput hinput') (loads_str.mp hloaded) (loads_str.mp hloaded') rfl
  obtain rfl := Json.obj.inj hsame
  exact hp.unique hp'

end Requests

section Envelopes
variable {h : Host}

theorem sextetChar_plain (url : Bool) {n : ℕ} (hn : n < 64) : isPlain (sextetChar url n) = true := by
  cases url <;> interval_cases n <;> rfl

theorem b64encode_plain (raw : Bytes) : ∀ c ∈ b64encode false raw, isPlain c = true := by
  fun_induction b64encode false raw with
  | case1 => simp
  | case2 a =>
    have ha := a.toNat_lt
    simp only [List.mem_cons, List.not_mem_nil, or_false]
    rintro c (rfl | rfl | rfl | rfl)
    · exact sextetChar_plain _ (by omega)
    · exact sextetChar_plain _ (by omega)
    · rfl
    · rfl
  | case3 a b =>
    have ha := a.toNat_lt
    have hb := b.toNat_lt
    simp only [List.mem_cons, List.not_mem_nil, or_false]
    rintro c (rfl | rfl | rfl | rfl)
    · exact sextetChar_plain _ (by omega)
    · exact sextetChar_plain _ (by omega)
    · exact sextetChar_plain _ (by omega)
    · rfl
  | case4 a b c rest ih =>
    have ha := a.toNat_lt
    have hb := b.toNat_lt
    have hc := c.toNat_lt
    simp only [List.mem_cons]
    rintro d (rfl | rfl | rfl | rfl | hd)
    · exact sextetChar_plain _ (by omega)
    · exact sextetChar_plain _ (by omega)
    · exact sextetChar_plain _ (by omega)
    · exact sextetChar_plain _ (by omega)
    · exact ih d hd

theorem isHex_plain {n : ℕ} {s : Text} (hs : isHex n s = true) : ∀ c ∈ s, isPlain c = true := by
  simp only [isHex, Bool.and_eq_true, decide_eq_true_eq, List.all_eq_true] at hs
  intro c hc
  have hlower := hs.2 c hc
  simp only [isLowerHex, isDigit, Bool.or_eq_true, Bool.and_eq_true, decide_eq_true_eq] at hlower
  simp only [isPlain, Bool.and_eq_true, decide_eq_true_eq]
  omega

theorem checkEncoded_eq_some {members : Members} {key : String} {low high : ℕ} :
    checkEncoded members key low high = some () ↔ ∃ decoded, low ≤ decoded.length ∧ decoded.length ≤ high ∧
      stringField members key = some (b64encode false decoded) := by
  simp only [checkEncoded, Option.bind_eq_bind, Option.bind_eq_some_iff, Option.guard_eq_some']
  constructor
  · rintro ⟨value, hvalue, decoded, -, hlow, hhigh, rfl⟩
    exact ⟨decoded, hlow, hhigh, hvalue⟩
  · rintro ⟨decoded, hlow, hhigh, hvalue⟩
    exact ⟨_, hvalue, decoded, b64decode_b64encode false decoded, hlow, hhigh, rfl⟩

/-- What an envelope with the fields `members` has passed. -/
structure Enveloped (h : Host) (raw : Raw) (members : Members) (request : Request) : Prop where
  size : raw.length ≤ 2600
  loaded : h.loads raw = some (.obj members)
  fields : hasFields members envelopeFields = true
  version : field members "version" = some (.int 1)
  scope : stringField members "scope" = some (text "azd-santa-sealed-setup")
  algorithm : stringField members "algorithm" = some (text "RSA-OAEP-256+A256GCM")
  mode : stringField members "mode" = some request.mode
  context : stringField members "context_sha256" = some request.contextSha256
  kid : stringField members "kid_sha256" = some request.recipientSha256
  target : stringField members "target_sha256" = some request.targetSha256
  wrapped : checkEncoded members "wrapped_key_base64" 384 384 = some ()
  nonce : checkEncoded members "nonce_base64" 12 12 = some ()
  ciphertext : checkEncoded members "ciphertext_base64" 17 1600 = some ()

theorem envelope_eq_some {raw : Raw} {request : Request} {sealed : Bytes} :
    h.envelope raw request = some sealed ↔
      ∃ members, Enveloped h raw members request ∧ h.encoded (.obj members) = some sealed := by
  simp only [Host.envelope, Option.bind_eq_bind, Option.bind_eq_some_iff, Option.guard_eq_some']
  constructor
  · rintro ⟨-, hsize, loaded, hloaded, henvelope⟩
    split at henvelope
    · next members =>
      simp only [Option.bind_eq_some_iff, Option.guard_eq_some'] at henvelope
      obtain ⟨-, hfields, found, hversion, henvelope⟩ := henvelope
      split at henvelope
      · next version =>
        simp only [Option.bind_eq_some_iff, Option.guard_eq_some'] at henvelope
        obtain ⟨_, hscope, _, halgorithm, _, hmode, _, hcontext, _, hkid, _, htarget, -,
          ⟨rfl, rfl, rfl, rfl, rfl, rfl, rfl⟩, ⟨⟩, hwrapped, ⟨⟩, hnonce, ⟨⟩, hciphertext, hencoded⟩ := henvelope
        exact ⟨members, ⟨hsize, hloaded, hfields, hversion, hscope, halgorithm, hmode, hcontext, hkid, htarget,
          hwrapped, hnonce, hciphertext⟩, hencoded⟩
      · cases henvelope
    · cases henvelope
  · rintro ⟨members, he, hencoded⟩
    refine ⟨(), he.size, .obj members, he.loaded, ?_⟩
    simp only [Option.bind_eq_some_iff, Option.guard_eq_some']
    refine ⟨(), he.fields, .int 1, he.version, ?_⟩
    simp only [Option.bind_eq_some_iff, Option.guard_eq_some']
    exact ⟨_, he.scope, _, he.algorithm, _, he.mode, _, he.context, _, he.kid, _, he.target, (),
      ⟨rfl, trivial, rfl, rfl, rfl, rfl, rfl⟩, (), he.wrapped, (), he.nonce, (), he.ciphertext, hencoded⟩

theorem loads_bytes {raw : Bytes} {v : Json} :
    h.loads (.bytes raw) = some v ↔ h.reader.loadsBytes raw = .ok v := by
  simp only [Host.loads]
  cases h.reader.loadsBytes raw <;> simp [Except.toOption]

/-- Text or bytes, a text is read. -/
theorem loads_text {raw : Raw} {v : Json} (hload : h.loads raw = some v) :
    ∃ input, input.length ≤ raw.length ∧ h.reader.loads input = .ok v := by
  cases raw with
  | str input => exact ⟨input, le_rfl, loads_str.mp hload⟩
  | bytes raw =>
    have hbytes := loads_bytes.mp hload
    unfold Reader.loadsBytes at hbytes
    split at hbytes
    · next input hinput => exact ⟨input, decodeDetected_length hinput, hbytes⟩
    · cases hbytes

/-- The values a request has passed on to its envelope. -/
structure Formal (request : Request) : Prop where
  mode : request.mode ∈ modes
  context : isHex 64 request.contextSha256 = true
  target : isHex 64 request.targetSha256 = true
  recipient : isHex 64 request.recipientSha256 = true

theorem Parsed.formal {value : Text} {members context binding : Members} {request : Request} {raw : Bytes}
    (hp : Parsed h value members context binding request raw) : Formal request := by
  have hc := checkContext_eq_some.mp hp.checked
  obtain ⟨mode, hmodes, hmode⟩ := hc.mode
  obtain ⟨target, htarget, htargetHex⟩ := hc.target
  obtain ⟨recipient, hrecipient, hrecipientHex⟩ := hc.recipient
  refine ⟨?_, hc.digestHex, ?_, ?_⟩
  · rwa [Option.some.inj (hp.mode.symm.trans hmode)]
  · rwa [Option.some.inj (hp.target.symm.trans htarget)]
  · rwa [Option.some.inj (hp.recipient.symm.trans hrecipient)]

theorem Enveloped.nodup {raw : Raw} {members : Members} {request : Request}
    (he : Enveloped h raw members request) : (members.map Prod.fst).Nodup := by
  obtain ⟨input, -, hload⟩ := loads_text he.loaded
  exact loads_nodup h hload

/-- An envelope holds plain text and one number. -/
theorem Enveloped.member_cases {raw : Raw} {members : Members} {request : Request}
    (he : Enveloped h raw members request) (hrequest : Formal request) {m : Text × Json} (hm : m ∈ members) :
    m.2 = .int 1 ∨ ∃ s, m.2 = .str s ∧ ∀ c ∈ s, isPlain c = true := by
  have hlookup := Unique.lookup_of_mem he.nodup hm
  have hkey := hasFields_mem he.fields hm
  have hstring {key : String} {s : Text} (hkey : m.1 = text key) (hs : stringField members key = some s)
      (hplain : ∀ c ∈ s, isPlain c = true) : m.2 = .int 1 ∨ ∃ s, m.2 = .str s ∧ ∀ c ∈ s, isPlain c = true := by
    rw [hkey] at hlookup
    exact Or.inr ⟨s, Option.some.inj (hlookup.symm.trans (stringField_eq_some.mp hs)), hplain⟩
  have hmode : ∀ c ∈ request.mode, isPlain c = true := by
    have hmodes := hrequest.mode
    simp only [modes, List.mem_cons, List.not_mem_nil, or_false] at hmodes
    rcases hmodes with hmode | hmode <;> rw [hmode] <;> decide
  obtain ⟨wrapped, -, -, hwrapped⟩ := checkEncoded_eq_some.mp he.wrapped
  obtain ⟨nonce, -, -, hnonce⟩ := checkEncoded_eq_some.mp he.nonce
  obtain ⟨ciphertext, -, -, hciphertext⟩ := checkEncoded_eq_some.mp he.ciphertext
  simp only [envelopeFields, List.mem_cons, List.not_mem_nil, or_false] at hkey
  rcases hkey with hkey | hkey | hkey | hkey | hkey | hkey | hkey | hkey | hkey | hkey
  · exact hstring hkey he.scope (by decide)
  · rw [hkey] at hlookup
    exact Or.inl (Option.some.inj (hlookup.symm.trans he.version))
  · exact hstring hkey he.algorithm (by decide)
  · exact hstring hkey he.mode hmode
  · exact hstring hkey he.kid (isHex_plain hrequest.recipient)
  · exact hstring hkey he.context (isHex_plain hrequest.context)
  · exact hstring hkey he.target (isHex_plain hrequest.target)
  · exact hstring hkey hwrapped (b64encode_plain wrapped)
  · exact hstring hkey hnonce (b64encode_plain nonce)
  · exact hstring hkey hciphertext (b64encode_plain ciphertext)

theorem envelopeFields_plain : ∀ key ∈ envelopeFields, ∀ c ∈ key, isPlain c = true := by
  decide

theorem Enveloped.simple {raw : Raw} {members : Members} {request : Request}
    (he : Enveloped h raw members request) (hrequest : Formal request) : (Json.obj members).Simple h.room := by
  obtain ⟨input, -, hload⟩ := loads_text he.loaded
  have hleaves := loads_leaves h.reader_leaves hload
  have hroom : h.reader.depth = h.room := rfl
  rw [hroom] at hleaves
  cases hd : h.room with
  | zero =>
    rw [hd] at hleaves
    cases hleaves
  | succ d =>
    intro m hm
    refine ⟨envelopeFields_plain m.1 (hasFields_mem he.fields hm), ?_⟩
    rcases he.member_cases hrequest hm with hversion | ⟨s, hs, hplain⟩
    · rw [hversion]
      cases d <;> trivial
    · rw [hs]
      cases d <;> exact hplain

theorem isPlain_scalar {c : ℕ} (hc : isPlain c = true) : isScalar c = true := by
  simp only [isPlain, Bool.and_eq_true, decide_eq_true_eq] at hc
  simp only [isScalar, isSurrogate, Bool.and_eq_true, Bool.not_eq_true', Bool.and_eq_false_iff,
    decide_eq_true_eq, decide_eq_false_iff_not]
  omega

theorem Enveloped.plain {raw : Raw} {members : Members} {request : Request}
    (he : Enveloped h raw members request) (hrequest : Formal request) :
    (Json.obj members).Plain h.reader h.writer h.room := by
  have hsimple := he.simple hrequest
  have hpairs : h.reader.pairs members = .ok members := if_pos he.nodup
  revert hsimple
  cases h.room with
  | zero => exact fun hsimple => hsimple.elim
  | succ d =>
    intro hsimple
    refine ⟨(fun hsorted => by cases hsorted), hpairs, fun m hm => ⟨fun c hc => ?_, ?_⟩⟩
    · exact isPlain_scalar ((hsimple m hm).1 c hc)
    · rcases he.member_cases hrequest hm with hversion | ⟨s, hs, hplain⟩
      · rw [hversion]
        cases d <;> trivial
      · rw [hs]
        cases d <;> exact fun c hc => isPlain_scalar (hplain c hc)

theorem encoded_eq_some {v : Json} {raw : Bytes} : h.encoded v = some raw ↔ h.writer.dumpsBytes v = .ok raw := by
  simp only [Host.encoded]
  cases h.writer.dumpsBytes v <;> simp [Except.toOption]

theorem separator_comma : Separator 44 h.writer.comma := ⟨[], rfl, by simp⟩

theorem separator_colon : Separator 58 h.writer.colon := ⟨[], rfl, by simp⟩

/-- What passed the check passes it again, as it was returned. -/
theorem envelope_again {raw : Raw} {request : Request} (hrequest : Formal request) {sealed : Bytes}
    (henvelope : h.envelope raw request = some sealed) :
    h.envelope (.bytes sealed) request = some sealed := by
  obtain ⟨members, he, hencoded⟩ := envelope_eq_some.mp henvelope
  obtain ⟨input, hinput, hload⟩ := loads_text he.loaded
  obtain ⟨hloaded, t, ht, rfl⟩ := loadsBytes_simple rfl separator_comma separator_colon (he.simple hrequest)
    (he.plain hrequest) le_rfl (encoded_eq_some.mp hencoded)
  have hlength : t.length ≤ input.length :=
    loads_length h.reader_literal rfl rfl rfl hload (he.simple hrequest) ht
  have hsize : (Raw.bytes (t.map UInt8.ofNat)).length ≤ 2600 := by
    rw [Raw.length, List.length_map]
    exact (hlength.trans hinput).trans he.size
  exact envelope_eq_some.mpr ⟨members, ⟨hsize, loads_bytes.mpr hloaded, he.fields, he.version, he.scope, he.algorithm,
    he.mode, he.context, he.kid, he.target, he.wrapped, he.nonce, he.ciphertext⟩, hencoded⟩

end Envelopes

end Setup
