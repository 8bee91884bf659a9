import AzdSanta.Admission.Config
import AzdSanta.Python.IpAddressText

/-! The identity that a sync request is counted under: the address of its peer, or the one a
trusted proxy names, and its credential. -/
namespace Admission
open Python

/-- `request.META`, as far as it holds text. -/
abbrev Meta := String → Option Text

def forward : List String :=
  ["HTTP_FORWARDED", "HTTP_X_FORWARDED_FOR", "HTTP_X_REAL_IP", "HTTP_X_SSL_CLIENT_S_DN",
    "HTTP_X_SSL_CLIENT_VERIFY", "HTTP_X_FORWARDED_PROTO", "HTTP_X_FORWARDED_CLIENT_CERT",
    "HTTP_X_SSL_CLIENT_CERT", "HTTP_X_CLIENT_CERT"]

def clientHeader : String := "HTTP_X_AZD_SANTA_CLIENT_IP"

/-- The headers that `identity` removes. -/
def untrusted : List String := forward ++ [clientHeader]

/-- `any(address in ip_network(peer) for peer in peers)`; `none` is a peer that is no network. -/
def trusts (address : Address) : List String → Option Bool
  | [] => some false
  | peer :: rest => do
    let network ← ipNetwork true (text peer)
    if network.contains address then return true else trusts address rest

/-- The address `identity` goes on with. -/
def usedAddress (c : Config) (m : Meta) : Option Address := do
  let address ← ipAddress ((m "REMOTE_ADDR").getD [])
  match c.mode with
  | .direct => return address
  | .proxy =>
    if ← trusts address c.peers then ipAddress ((m clientHeader).getD []) else none

/-- The source text: an IPv6 address counts as its `/64`. -/
def sourceText : Address → Option Text
  | .v6 ip scope =>
    (ipNetwork false ((Address.v6 ip scope).text ++ text "/64")).map Network.text
  | .v4 ip => some (Address.v4 ip).text

/-- The removed headers and the canonical one. -/
def cleaned (m : Meta) (address : Address) : Meta := fun name =>
  if name = "HTTP_X_REAL_IP" then some address.text
  else if name ∈ untrusted then none
  else m name

/-- `hmac.new(key, message, sha256).hexdigest()` is `hmac key message`. -/
def mac (hmac : Bytes → Bytes → Text) (key : Text) (domain : String) (value : Text) : Option Text := do
  let key ← encodeUtf8 key
  let message ← encodeUtf8 (text domain ++ 0 :: value)
  return hmac key message

/-- `identity`: the two keys, or an exception, and the META it leaves. -/
def identity (hmac : Bytes → Bytes → Text) (c : Config) (m : Meta) (credential key : Text) :
    Option (Text × Text) × Meta :=
  match usedAddress c m with
  | none => (none, m)
  | some address =>
    match sourceText address with
    | none => (none, m)
    | some source =>
      (do
        let source ← mac hmac key "source" source
        let credential ← mac hmac key "credential" credential
        return (text "sync-source:" ++ source, text "sync-credential:" ++ credential),
      cleaned m address)

/-- The same IPv4 address, or one IPv6 `/64`. -/
def SameSource : Address → Address → Prop
  | .v4 ip, .v4 ip' => ip = ip'
  | .v6 ip _, .v6 ip' _ => ip.mask 64 = ip'.mask 64
  | _, _ => False

/-- The scope that the `/64` of an address keeps: that of an address without host bits. -/
def keptScope : Address → Option Text
  | .v6 ip scope => if ip.mask 64 = ip then scope else none
  | .v4 _ => none

/-- The peer lies in one of the configured networks. -/
def PeerTrusted (c : Config) (m : Meta) : Prop :=
  ∃ address, ipAddress ((m "REMOTE_ADDR").getD []) = some address ∧
    ∃ peer ∈ c.peers, ∃ network, ipNetwork true (text peer) = some network ∧
      network.contains address = true

section Source

theorem keptScope_valid {ip : Groups 8 16} {scope : Option Text} (hscope : ScopeValid scope) :
    ScopeValid (keptScope (.v6 ip scope)) := by
  simp only [keptScope]
  split_ifs
  · exact hscope
  · intro s hs
    cases hs

theorem sourceText_v6 (ip : Groups 8 16) {scope : Option Text} (hscope : ScopeValid scope) :
    sourceText (.v6 ip scope) =
      some ((Address.v6 (ip.mask 64) (keptScope (.v6 ip scope))).text ++ text "/64") := by
  rw [sourceText, ipNetwork_text hscope]
  rfl

theorem text_injective {a b : Address} (ha : a.Valid) (hb : b.Valid) (h : a.text = b.text) : a = b := by
  have htext := ipAddress_text ha
  rw [h, ipAddress_text hb] at htext
  exact (Option.some.inj htext).symm

/-- Two accepted addresses share their source text exactly when they share the address or the
`/64`, and the scope that the `/64` kept. -/
theorem sourceText_eq_iff {a b : Address} (ha : a.Valid) (hb : b.Valid) :
    sourceText a = sourceText b ↔ SameSource a b ∧ keptScope a = keptScope b := by
  have hcolon (ip : Groups 4 8) (ip' : Groups 8 16) (scope : Option Text) :
      (Address.v4 ip).text ≠ (Address.v6 ip' scope).text ++ text "/64" := by
    intro h
    have hmem : 58 ∈ (Address.v4 ip).text := by
      rw [h]
      exact List.mem_append_left _ (colon_mem_text ip' scope)
    have := mem_ipv4Text hmem
    omega
  cases a with
  | v4 ip =>
    cases b with
    | v4 ip' =>
      simp only [sourceText, Option.some.injEq, SameSource, keptScope, and_true]
      refine ⟨fun h => ?_, fun h => by rw [h]⟩
      exact Address.v4.inj (text_injective ha hb h)
    | v6 ip' scope' =>
      rw [sourceText_v6 ip' hb, sourceText]
      simpa [SameSource] using hcolon ip (ip'.mask 64) (keptScope (.v6 ip' scope'))
  | v6 ip scope =>
    cases b with
    | v4 ip' =>
      rw [sourceText_v6 ip ha, sourceText]
      simpa [SameSource] using (hcolon ip' (ip.mask 64) (keptScope (.v6 ip scope))).symm
    | v6 ip' scope' =>
      rw [sourceText_v6 ip ha, sourceText_v6 ip' hb, Option.some.injEq, List.append_left_inj]
      refine ⟨fun h => ?_, fun ⟨hmask, hkept⟩ => ?_⟩
      · have hsame := text_injective (a := .v6 (ip.mask 64) _) (b := .v6 (ip'.mask 64) _)
          (keptScope_valid ha) (keptScope_valid hb) h
        exact Address.v6.inj hsame
      · simp only [SameSource] at hmask
        rw [hmask, hkept]

theorem trusts_eq_true {address : Address} {peers : List String} (h : trusts address peers = some true) :
    ∃ peer ∈ peers, ∃ network, ipNetwork true (text peer) = some network ∧
      network.contains address = true := by
  induction peers with
  | nil => cases h
  | cons peer rest ih =>
    obtain ⟨network, hnetwork, h⟩ := Option.bind_eq_some_iff.mp h
    split_ifs at h with hcontains
    · exact ⟨peer, by simp, network, hnetwork, hcontains⟩
    · obtain ⟨p, hp, hrest⟩ := ih h
      exact ⟨p, List.mem_cons_of_mem _ hp, hrest⟩

theorem usedAddress_proxy {c : Config} {m : Meta} (hmode : c.mode = .proxy) (hpeer : ¬ PeerTrusted c m) :
    usedAddress c m = none := by
  rcases hused : usedAddress c m with _ | address
  · rfl
  obtain ⟨remote, hremote, hused⟩ := Option.bind_eq_some_iff.mp hused
  rw [hmode] at hused
  obtain ⟨trusted, htrusted, hused⟩ := Option.bind_eq_some_iff.mp hused
  split_ifs at hused with htrue
  subst htrue
  exact absurd ⟨remote, hremote, trusts_eq_true htrusted⟩ hpeer

theorem usedAddress_valid {c : Config} {m : Meta} {a : Address} (h : usedAddress c m = some a) :
    a.Valid := by
  obtain ⟨remote, hremote, h⟩ := Option.bind_eq_some_iff.mp h
  split at h
  · obtain rfl := Option.some.inj h
    exact ipAddress_valid hremote
  · obtain ⟨trusted, -, h⟩ := Option.bind_eq_some_iff.mp h
    split_ifs at h
    exact ipAddress_valid h

end Source

section Keys
variable {hmac : Bytes → Bytes → Text} {c : Config} {m : Meta} {credential key : Text}

/-- Everything behind a result of `identity`. -/
theorem identity_eq_some {keys : Text × Text} (h : (identity hmac c m credential key).1 = some keys) :
    ∃ address source sourceMac credentialMac, usedAddress c m = some address ∧
      sourceText address = some source ∧ mac hmac key "source" source = some sourceMac ∧
      mac hmac key "credential" credential = some credentialMac ∧
      keys = (text "sync-source:" ++ sourceMac, text "sync-credential:" ++ credentialMac) ∧
      (identity hmac c m credential key).2 = cleaned m address := by
  unfold identity at h ⊢
  rcases haddress : usedAddress c m with _ | address <;> simp only [haddress] at h ⊢
  · cases h
  rcases hsource : sourceText address with _ | source <;> simp only [hsource] at h ⊢
  · cases h
  obtain ⟨sourceMac, hsourceMac, h⟩ := Option.bind_eq_some_iff.mp h
  obtain ⟨credentialMac, hcredentialMac, h⟩ := Option.bind_eq_some_iff.mp h
  exact ⟨address, source, sourceMac, credentialMac, rfl, hsource, hsourceMac, hcredentialMac,
    (Option.some.inj h).symm, rfl⟩

theorem mac_injective (hinj : ∀ k m m', hmac k m = hmac k m' → m = m') {domain : String}
    {value value' digest : Text} (h : mac hmac key domain value = some digest)
    (h' : mac hmac key domain value' = some digest) : value = value' := by
  obtain ⟨raw, hraw, h⟩ := Option.bind_eq_some_iff.mp h
  obtain ⟨message, hmessage, h⟩ := Option.bind_eq_some_iff.mp h
  obtain ⟨raw', hraw', h'⟩ := Option.bind_eq_some_iff.mp h'
  obtain ⟨message', hmessage', h'⟩ := Option.bind_eq_some_iff.mp h'
  obtain rfl := Option.some.inj (hraw.symm.trans hraw')
  have hdigest := (Option.some.inj h).trans (Option.some.inj h').symm
  obtain rfl := hinj _ _ _ hdigest
  have htext := encodeUtf8_injective hmessage hmessage'
  exact (List.cons.inj (List.append_cancel_left htext)).2

/-- In direct mode only the peer address is read, and every header that differs is removed. -/
theorem identity_direct (hmode : c.mode = .direct) {m' : Meta}
    (hsame : ∀ name, name ∉ untrusted → m name = m' name) :
    (identity hmac c m credential key).1 = (identity hmac c m' credential key).1 ∧
    ((identity hmac c m credential key).1.isSome →
      (identity hmac c m credential key).2 = (identity hmac c m' credential key).2) := by
  have haddress : usedAddress c m = usedAddress c m' := by
    simp only [usedAddress, hmode, hsame "REMOTE_ADDR" (by decide)]
  have hcleaned (a : Address) : cleaned m a = cleaned m' a := by
    funext name
    unfold cleaned
    split_ifs with hreal hremoved
    · rfl
    · rfl
    · exact hsame name hremoved
  unfold identity
  rw [← haddress]
  rcases usedAddress c m with _ | a
  · simp
  · rcases hsource : sourceText a with _ | source
    · simp [hsource]
    · simp [hsource, hcleaned]

end Keys

/-- Headers have no say in direct mode and none without a trusted peer in proxy mode; what is
left of them is the canonical address. Source keys are those of the address or its `/64`
unless the `/64` of an address without host bits keeps a scope of its own. -/
theorem source_identity (hmac : Bytes → Bytes → Text)
    (collisionFree : ∀ key m m', hmac key m = hmac key m' → m = m') (c : Config) (key : Text) :
    (c.mode = .direct → ∀ m m' credential, (∀ name, name ∉ untrusted → m name = m' name) →
      (identity hmac c m credential key).1 = (identity hmac c m' credential key).1 ∧
      ((identity hmac c m credential key).1.isSome →
        (identity hmac c m credential key).2 = (identity hmac c m' credential key).2)) ∧
    (c.mode = .proxy → ∀ m credential, ¬ PeerTrusted c m →
      identity hmac c m credential key = (none, m)) ∧
    (∀ m credential, (identity hmac c m credential key).1.isSome → ∃ address,
      usedAddress c m = some address ∧ ipAddress address.text = some address ∧
      (identity hmac c m credential key).2 "HTTP_X_REAL_IP" = some address.text ∧
      ∀ name ∈ forward, name ≠ "HTTP_X_REAL_IP" → (identity hmac c m credential key).2 name = none) ∧
    (∀ m m' credential credential' keys keys', (identity hmac c m credential key).1 = some keys →
      (identity hmac c m' credential' key).1 = some keys' → keys.1 ≠ keys'.2) ∧
    ∀ m m' credential credential' keys keys' address address',
      (identity hmac c m credential key).1 = some keys →
      (identity hmac c m' credential' key).1 = some keys' →
      usedAddress c m = some address → usedAddress c m' = some address' →
      ((keys.1 = keys'.1 ↔ SameSource address address') ↔
        ¬ (SameSource address address' ∧ keptScope address ≠ keptScope address')) := by
  refine ⟨?_, ?_, ?_, ?_, ?_⟩
  · intro hmode m m' credential hsame
    exact identity_direct hmode hsame
  · intro hmode m credential hpeer
    simp only [identity, usedAddress_proxy hmode hpeer]
  · intro m credential hreturns
    obtain ⟨keys, hkeys⟩ := Option.isSome_iff_exists.mp hreturns
    obtain ⟨address, source, _, _, hused, -, -, -, -, hmeta⟩ := identity_eq_some hkeys
    refine ⟨address, hused, ipAddress_text (usedAddress_valid hused), by simp [hmeta, cleaned], ?_⟩
    intro name hname hreal
    have hremoved : name ∈ untrusted := List.mem_append_left _ hname
    rw [hmeta, cleaned, if_neg hreal, if_pos hremoved]
  · intro m m' credential credential' keys keys' hkeys hkeys'
    obtain ⟨_, _, sourceMac, _, -, -, -, -, rfl, -⟩ := identity_eq_some hkeys
    obtain ⟨_, _, _, credentialMac, -, -, -, -, rfl, -⟩ := identity_eq_some hkeys'
    -- The two prefixes differ in their sixth character.
    intro h
    have hsixth := congrArg (·[5]?) h
    simp [text] at hsixth
  · intro m m' credential credential' keys keys' address address' hkeys hkeys' hused hused'
    obtain ⟨a, source, sourceMac, _, ha, hsource, hmac, -, rfl, -⟩ := identity_eq_some hkeys
    obtain ⟨a', source', sourceMac', _, ha', hsource', hmac', -, rfl, -⟩ := identity_eq_some hkeys'
    obtain rfl := Option.some.inj (ha.symm.trans hused)
    obtain rfl := Option.some.inj (ha'.symm.trans hused')
    have hkey : text "sync-source:" ++ sourceMac = text "sync-source:" ++ sourceMac' ↔
        source = source' := by
      rw [List.append_right_inj]
      refine ⟨fun h => ?_, fun h => ?_⟩
      · subst h
        exact mac_injective collisionFree hmac hmac'
      · subst h
        exact Option.some.inj (hmac.symm.trans hmac')
    have htext := sourceText_eq_iff (usedAddress_valid ha) (usedAddress_valid ha')
    rw [hsource, hsource', Option.some.injEq] at htext
    rw [hkey, htext]
    tauto

/-- A MAC that spells out its message. -/
def plainMac (_ message : Bytes) : Text := message.map UInt8.toNat

/-- A request that a peer sends without headers. -/
def peerMeta (address : String) : Meta := fun name =>
  if name = "REMOTE_ADDR" then some (text address) else none

theorem plainMac_injective : ∀ key m m', plainMac key m = plainMac key m' → m = m' := by
  intro key m m' h
  exact List.map_injective_iff.mpr (fun _ _ => UInt8.toNat_inj.mp) h

/-- Two hosts of one `/64` count under one source key. -/
theorem source_identity_hosts : ∃ keys keys',
    (identity plainMac {} (peerMeta "2001:db8::1") [] []).1 = some keys ∧
    (identity plainMac {} (peerMeta "2001:DB8:0::2") [] []).1 = some keys' ∧ keys.1 = keys'.1 := by
  let one : Groups 8 16 := ⟨[8193, 3512, 0, 0, 0, 0, 0, 1], rfl, by decide⟩
  let two : Groups 8 16 := ⟨[8193, 3512, 0, 0, 0, 0, 0, 2], rfl, by decide⟩
  let keys := (text "sync-source:source\x002001:db8::/64", text "sync-credential:credential\x00")
  have hkeys : (identity plainMac {} (peerMeta "2001:db8::1") [] []).1 = some keys := by
    decide +kernel
  have hkeys' : (identity plainMac {} (peerMeta "2001:DB8:0::2") [] []).1 = some keys := by
    decide +kernel
  refine ⟨keys, keys, hkeys, hkeys', ?_⟩
  have hboth := (source_identity plainMac plainMac_injective {} []).2.2.2.2 _ _ _ _ keys keys
    (.v6 one none) (.v6 two none) hkeys hkeys' (by decide +kernel) (by decide +kernel)
  have hsame : SameSource (.v6 one none) (.v6 two none) :=
    show one.mask 64 = two.mask 64 by decide +kernel
  exact (hboth.mpr (by simp [keptScope])).mpr hsame

/-- `fe80::%a` and `fe80::%b` are one address, and count under two source keys. -/
theorem source_identity_scoped : ∃ keys keys' address address',
    (identity plainMac {} (peerMeta "fe80::%a") [] []).1 = some keys ∧
    (identity plainMac {} (peerMeta "fe80::%b") [] []).1 = some keys' ∧
    usedAddress {} (peerMeta "fe80::%a") = some address ∧
    usedAddress {} (peerMeta "fe80::%b") = some address' ∧
    SameSource address address' ∧ keys.1 ≠ keys'.1 := by
  let ip : Groups 8 16 := ⟨[65152, 0, 0, 0, 0, 0, 0, 0], rfl, by decide⟩
  refine ⟨(text "sync-source:source\x00fe80::%a/64", text "sync-credential:credential\x00"),
    (text "sync-source:source\x00fe80::%b/64", text "sync-credential:credential\x00"),
    .v6 ip (some (text "a")), .v6 ip (some (text "b")), ?_, ?_, ?_, ?_, rfl, ?_⟩
  · decide +kernel
  · decide +kernel
  · decide +kernel
  · decide +kernel
  · decide +kernel

end Admission
