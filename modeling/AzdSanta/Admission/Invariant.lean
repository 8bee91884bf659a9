import AzdSanta.Admission.Scripts
import AzdSanta.Redis.FixedWindow

/-! What the scripts do on a sound store, and that they keep it sound. -/
namespace Admission
open Redis SecurityStore Checks FixedWindow

def Config.limitOf (c : Config) : Key → Option ℕ
  | .syncGlobal => some c.globalMax
  | .syncSource _ => some c.sourceMax
  | .syncCredential _ => some c.credentialMax
  | _ => none

/-- The window in milliseconds. -/
def Config.width (c : Config) : ℕ := c.window * 1000

def counterEntry (n e : ℕ) : Entry := ⟨.str (Nat.toDigits 10 n), some e⟩

/-- A counter key read as a fixed-window cell. -/
def cell (s : Store Key) (k : Key) : Cell :=
  match s.find k with
  | some ⟨.str v, some e⟩ => (Lua.tonumber v).map fun n => (n, e)
  | _ => none

def count (s : Store Key) (k : Key) : ℕ := (cell s k).count

/-- The fields of the admission state. -/
def slots (s : Store Key) : Fields :=
  match s.find .admissionState with
  | some ⟨.hash h, _⟩ => h
  | _ => ∅

/-- A live counter is a canonical decimal within its limit and expires within one window. -/
def CounterSound (c : Config) (s : Store Key) (k : Key) (limit : ℕ) : Prop :=
  ∀ entry, s.find k = some entry → ∃ n e, entry = counterEntry n e ∧
    1 ≤ n ∧ n ≤ limit ∧ s.now ≤ e ∧ e ≤ s.now + c.width

/-- Exactly the configuration, a generation and slots holding well-formed tokens. -/
structure FieldsSound (site : Site) (h : Fields) : Prop where
  config : h.lookup configField = some site.fingerprint
  generation : ∃ g : Generation, h.lookup generationField = some g.val
  fields : ∀ f ∈ h.keys, f = configField ∨ f = generationField ∨
    ∃ i < site.config.capacity, f = Lua.tostring i
  tokens : ∀ i < site.config.capacity, ∀ t, h.lookup (Lua.tostring i) = some t →
    ∃ token : Token, t = token.val

structure Sound (site : Site) (s : Store Key) : Prop where
  state : s.find .admissionState = some ⟨.hash (slots s), none⟩
  fields : FieldsSound site (slots s)
  counters : ∀ k limit, site.config.limitOf k = some limit → CounterSound site.config s k limit

section Counters
variable {c : Config} {s : Store Key} {k : Key} {limit : ℕ}

theorem cell_of_find_none (h : s.find k = none) : cell s k = none := by
  simp [cell, h]

theorem cell_of_find {n e : ℕ} (h : s.find k = some (counterEntry n e)) :
    cell s k = some (n, e) := by
  simp [cell, h, counterEntry]

/-- A sound counter is absent or is its cell. -/
theorem CounterSound.cases (hc : CounterSound c s k limit) :
    (s.find k = none ∧ cell s k = none) ∨
    ∃ n e, s.find k = some (counterEntry n e) ∧ cell s k = some (n, e) ∧
      1 ≤ n ∧ n ≤ limit ∧ s.now ≤ e ∧ e ≤ s.now + c.width := by
  rcases hf : s.find k with _ | entry
  · exact Or.inl ⟨rfl, cell_of_find_none hf⟩
  · obtain ⟨n, e, rfl, hbounds⟩ := hc entry hf
    exact Or.inr ⟨n, e, rfl, cell_of_find hf, hbounds⟩

theorem ttl_of_find {n e : ℕ} (h : s.find k = some (counterEntry n e)) :
    s.ttl k = ((e - s.now + 500) / 1000 : ℕ) := by
  simp [Store.ttl, h, counterEntry]

/-- Rounding to seconds keeps the remaining time within the window. -/
theorem CounterSound.ttl_bounds (hc : CounterSound c s k limit) {entry : Entry}
    (h : s.find k = some entry) : 0 ≤ s.ttl k ∧ s.ttl k ≤ c.window := by
  obtain ⟨n, e, rfl, -, -, hlo, hhi⟩ := hc entry h
  rw [ttl_of_find h]
  unfold Config.width at hhi
  omega

theorem readCounter_ok (hc : CounterSound c s k limit) (hl : limit ≤ 1200) :
    readCounter k limit c.window s = .ok (count s k) := by
  rcases hc.cases with ⟨hf, hcell⟩ | ⟨n, e, hf, hcell, hn, hnl, -⟩
  · simp [readCounter, Store.get, hf, count, hcell, Cell.count]
  · have hbounds := hc.ttl_bounds hf
    have hlen : (Nat.toDigits 10 n).length ≤ 5 :=
      (Nat.length_toDigits_le_iff (by decide) (by decide)).mpr (by omega)
    have htext : Lua.tostring n = Nat.toDigits 10 n := Lua.tostring_of_lt (by omega)
    have hpass : ¬ ((Nat.toDigits 10 n).length > 5 ∨ n < 1 ∨ Lua.tostring n ≠ Nat.toDigits 10 n ∨
        n > limit ∨ s.ttl k < 0 ∨ s.ttl k > c.window) := by
      rw [htext]
      simp only [ne_eq, not_true_eq_false, false_or, not_or]
      omega
    simp only [readCounter, Store.get, hf, counterEntry, ok_bind, Lua.tonumber_toDigits, hpass,
      if_false, pure_eq_ok, count, hcell, Cell.count]

/-- The store after one more hit on `k`. -/
def bumped (s : Store Key) (k : Key) (width : ℕ) : Store Key :=
  let b := (cell s k).bump width s.now
  s.write k (some (counterEntry b.1 b.2))

/-- A counter that reads is absent, or is a canonical decimal within its limit and window. -/
theorem readCounter_cases {window n : ℕ} (h : readCounter k limit window s = .ok n) :
    (s.find k = none ∧ n = 0) ∨ ∃ e, s.find k = some (counterEntry n e) ∧
      1 ≤ n ∧ n ≤ limit ∧ 0 ≤ s.ttl k ∧ s.ttl k ≤ window := by
  obtain ⟨v, hget, h⟩ := bind_eq_ok.mp h
  rcases v with _ | v
  · exact Or.inl ⟨Store.get_eq_none hget, (Except.ok.inj h).symm⟩
  obtain ⟨expireAt, hf⟩ := Store.get_eq_some hget
  rcases hnum : Lua.tonumber v with _ | m <;> simp only [hnum, throw_eq_error] at h
  · cases h
  obtain ⟨hpass, h⟩ := check_eq_ok.mp h
  obtain rfl := Except.ok.inj h
  push Not at hpass
  obtain ⟨-, hpos, htext, hlimit, hlo, hhi⟩ := hpass
  -- A positive remaining time is the time of an entry that expires.
  obtain ⟨e, rfl⟩ : ∃ e, expireAt = some e := by
    cases expireAt with
    | none => simp [Store.ttl, hf] at hlo
    | some e => exact ⟨e, rfl⟩
  have hdigits : Lua.matchAll Lua.digit (Lua.tostring m) = true := by
    rw [htext]
    by_contra hv
    simp [Lua.tonumber, hv] at hnum
  rw [Lua.tostring_of_lt (Lua.matchAll_tostring hdigits)] at htext
  exact Or.inr ⟨e, by rw [hf, counterEntry, htext], hpos, hlimit, hlo, hhi⟩

theorem count_of_read {window n : ℕ} (h : readCounter k limit window s = .ok n) : count s k = n := by
  rcases readCounter_cases h with ⟨hf, rfl⟩ | ⟨e, hf, -⟩
  · simp [count, cell_of_find_none hf, Cell.count]
  · simp [count, cell_of_find hf, Cell.count]

/-- A counter that reads can be counted: neither `SET EX` nor `INCR` fails on it. -/
theorem bump_of_read {window n : ℕ} (h : readCounter k limit window s = .ok n) (hl : limit ≤ 1200)
    (hw : 1 ≤ window) : (bump k n window).run s = (.ok (), bumped s k (window * 1000)) := by
  rcases readCounter_cases h with ⟨hf, rfl⟩ | ⟨e, hf, hn, hnl, -⟩
  · have hone : "1".toList = Nat.toDigits 10 1 := rfl
    simp only [bump, if_true, Script.setEx, bumped, cell_of_find_none hf, Cell.bump,
      counterEntry, hone]
    rw [if_neg (by omega)]
    rfl
  · have hne : n ≠ 0 := by omega
    have hint := Lua.integer?_toDigits (n := n) (by omega)
    have hmax : (n : ℤ) ≠ 2 ^ 63 - 1 := by omega
    have hcell := cell_of_find hf
    simp only [bump, hne, if_false, Script.run_bind]
    simp only [Script.run, Script.incr, hf, counterEntry, hint, hmax, if_false, bumped, hcell,
      Cell.bump]
    rfl

@[simp] theorem bumped_now (s : Store Key) (k : Key) (width : ℕ) :
    (bumped s k width).now = s.now := rfl

theorem bumped_find_ne (s : Store Key) {k k' : Key} (width : ℕ) (h : k' ≠ k) :
    (bumped s k width).find k' = s.find k' := by
  simp [bumped, h]

theorem readCounter_bumped {window n : ℕ} {k' : Key} (width : ℕ) (hne : k' ≠ k)
    (h : readCounter k' limit window s = .ok n) :
    readCounter k' limit window (bumped s k width) = .ok n := by
  have hf := bumped_find_ne s width hne
  have hget : (bumped s k width).get k' = s.get k' := by simp only [Store.get, hf]
  have httl : (bumped s k width).ttl k' = s.ttl k' := by simp only [Store.ttl, hf, bumped_now]
  simpa only [readCounter, hget, httl] using h

theorem cell_congr {s t : Store Key} {k : Key} (h : s.find k = t.find k) : cell s k = cell t k := by
  simp only [cell, h]

/-- A cell is only seen while it lives. -/
theorem cell_live {n e : ℕ} (h : cell s k = some (n, e)) : s.now ≤ e := by
  unfold cell at h
  split at h
  · next v e' hf =>
    obtain ⟨m, -, hme⟩ := Option.map_eq_some_iff.mp h
    obtain rfl := (Prod.mk.inj hme).2
    exact Entry.live_iff.mp (Store.find_live hf).2 _ rfl
  · cases h

theorem bump_live (s : Store Key) (k : Key) (width : ℕ) :
    s.now ≤ ((cell s k).bump width s.now).2 := by
  rcases hcell : cell s k with _ | ⟨n, e⟩
  · exact Nat.le_add_right _ _
  · exact cell_live hcell

theorem bumped_find_self (s : Store Key) (k : Key) (width : ℕ) :
    (bumped s k width).find k = some (counterEntry ((cell s k).bump width s.now).1
      ((cell s k).bump width s.now).2) :=
  Store.write_find_self _ _ _ (decide_eq_true (bump_live s k width))

theorem cell_bumped_ne (s : Store Key) {k k' : Key} (width : ℕ) (h : k' ≠ k) :
    cell (bumped s k width) k' = cell s k' :=
  cell_congr (bumped_find_ne s width h)

theorem CounterSound.congr {t : Store Key} (hc : CounterSound c s k limit)
    (hn : t.now = s.now) (hf : t.find k = s.find k) : CounterSound c t k limit := by
  intro entry he
  rw [hn]
  exact hc entry (hf ▸ he)

theorem CounterSound.bumped (hc : CounterSound c s k limit) (hlt : count s k < limit) :
    CounterSound c (bumped s k c.width) k limit := by
  intro entry he
  rw [bumped_find_self, Option.some.injEq] at he
  refine ⟨_, _, he.symm, ?_⟩
  rw [bumped_now]
  unfold count at hlt
  rcases hc.cases with ⟨-, hcell⟩ | ⟨n, e, -, hcell, hn, hnl, hlo, hhi⟩
  · rw [hcell] at hlt ⊢
    simp only [Cell.bump, Cell.count] at hlt ⊢
    omega
  · rw [hcell] at hlt ⊢
    simp only [Cell.bump, Cell.count] at hlt ⊢
    omega

/-- Within its window a counter stays sound; afterwards it is gone. -/
theorem CounterSound.advance (hc : CounterSound c s k limit) (ms : ℕ) :
    CounterSound c (s.advance ms) k limit := by
  intro entry he
  obtain ⟨n, e, rfl, hn, hnl, -, hhi⟩ := hc entry (Store.find_of_advance he)
  have hlive := Entry.live_iff.mp (Store.find_live he).2 e rfl
  refine ⟨n, e, rfl, hn, hnl, hlive, hhi.trans ?_⟩
  exact Nat.add_le_add_right (Nat.le_add_right _ _) _

end Counters

section State
variable {site : Site} {s : Store Key}

/-- Replace the fields of the admission state. -/
def withFields (s : Store Key) (h : Fields) : Store Key :=
  s.write .admissionState (some ⟨.hash h, none⟩)

@[simp] theorem withFields_now (s : Store Key) (h : Fields) : (withFields s h).now = s.now := rfl

theorem withFields_find (s : Store Key) (h : Fields) :
    (withFields s h).find .admissionState = some ⟨.hash h, none⟩ :=
  Store.write_find_self _ _ _ rfl

theorem withFields_find_ne (s : Store Key) (h : Fields) {k : Key} (hk : k ≠ .admissionState) :
    (withFields s h).find k = s.find k :=
  Store.write_find_ne s _ hk

@[simp] theorem slots_withFields (s : Store Key) (h : Fields) : slots (withFields s h) = h := by
  simp [slots, withFields_find]

theorem slots_congr {s t : Store Key} (h : s.find .admissionState = t.find .admissionState) :
    slots s = slots t := by
  simp only [slots, h]

theorem slots_bumped (s : Store Key) {k : Key} (width : ℕ) (hk : k ≠ .admissionState) :
    slots (bumped s k width) = slots s :=
  slots_congr (bumped_find_ne s width hk.symm)

theorem limitOf_ne_state {c : Config} {k : Key} {limit : ℕ} (h : c.limitOf k = some limit) :
    k ≠ .admissionState := by
  rintro rfl
  cases h

theorem Sound.withFields (hs : Sound site s) {h : Fields} (hf : FieldsSound site h) :
    Sound site (withFields s h) where
  state := by rw [slots_withFields, withFields_find]
  fields := by rwa [slots_withFields]
  counters k limit hk :=
    (hs.counters k limit hk).congr rfl (withFields_find_ne s h (limitOf_ne_state hk))

theorem Sound.bumped (hs : Sound site s) {k : Key} {limit : ℕ}
    (hk : site.config.limitOf k = some limit) (hlt : count s k < limit) :
    Sound site (bumped s k site.config.width) where
  state := by
    rw [slots_bumped s _ (limitOf_ne_state hk), bumped_find_ne s _ (limitOf_ne_state hk).symm]
    exact hs.state
  fields := by
    rw [slots_bumped s _ (limitOf_ne_state hk)]
    exact hs.fields
  counters k' limit' hk' := by
    by_cases heq : k' = k
    · subst heq
      obtain rfl := Option.some.inj (hk.symm.trans hk')
      exact (hs.counters k' limit hk).bumped hlt
    · exact (hs.counters k' limit' hk').congr rfl (bumped_find_ne s _ heq)

theorem slots_advance (hs : Sound site s) (ms : ℕ) : slots (s.advance ms) = slots s := by
  have h := Store.find_advance_of_persistent ms hs.state
  simp only [slots, h]

theorem Sound.advance (hs : Sound site s) (ms : ℕ) : Sound site (s.advance ms) where
  state := by
    rw [slots_advance hs]
    exact Store.find_advance_of_persistent ms hs.state
  fields := by
    rw [slots_advance hs]
    exact hs.fields
  counters k limit hk := (hs.counters k limit hk).advance ms

theorem tostring_slot (hb : site.config.Bounded) {i : ℕ} (hi : i < site.config.capacity) :
    Lua.tostring i = ['0'] := by
  rw [hb.capacity] at hi
  obtain rfl : i = 0 := by omega
  rfl

theorem hgetall_state (hs : Sound site s) : s.hgetall .admissionState = .ok (slots s) := by
  simp [Store.hgetall, hs.state]

theorem fieldsSound_length {h : Fields} (hf : FieldsSound site h) :
    h.keys.length ≤ 2 + site.config.capacity := by
  have hsub : h.keys ⊆ configField :: generationField ::
      (List.range site.config.capacity).map Lua.tostring := by
    intro f hfk
    rcases hf.fields f hfk with rfl | rfl | ⟨i, hi, rfl⟩
    · simp
    · simp
    · simp only [List.mem_cons, List.mem_map, List.mem_range]
      exact Or.inr (Or.inr ⟨i, hi, rfl⟩)
  have hlen := (h.keys_nodup.subperm hsub).length_le
  simp only [List.length_cons, List.length_map, List.length_range] at hlen
  omega

theorem fieldsSound_valid (hb : site.config.Bounded) {h : Fields} (hf : FieldsSound site h) :
    h.keys.all (fieldValid site.config.capacity h) = true := by
  rw [List.all_eq_true]
  intro f hfk
  rcases hf.fields f hfk with rfl | rfl | ⟨i, hi, rfl⟩
  · simp [fieldValid]
  · simp [fieldValid]
  · obtain ⟨t, ht⟩ := Option.isSome_iff_exists.mp (AList.lookup_isSome.mpr (AList.mem_keys.mpr hfk))
    obtain ⟨token, rfl⟩ := hf.tokens i hi t ht
    have hzero := tostring_slot hb hi
    have hi0 : (0 : ℕ) < site.config.capacity := by omega
    rw [hzero] at ht ⊢
    have hnum : Lua.tonumber ['0'] = some 0 := rfl
    have hdigit : Lua.matchAll Lua.digit ['0'] = true := rfl
    have htext : Lua.tostring 0 = ['0'] := rfl
    simp [fieldValid, hnum, ht, hdigit, hi0, htext, token.property.1, token.property.2]

theorem validate_ok (hb : site.config.Bounded) (hs : Sound site s) : validate site s = .ok () := by
  obtain ⟨g, hg⟩ := hs.fields.generation
  have htype : s.typeOf .admissionState = "hash" := by simp [Store.typeOf, hs.state]
  have httl : s.ttl .admissionState = -1 := by simp [Store.ttl, hs.state]
  have hlen := fieldsSound_length hs.fields
  have hvalid := fieldsSound_valid hb hs.fields
  have hget (f : Bytes) : s.hget .admissionState f = .ok ((slots s).lookup f) := by
    simp [Store.hget, hgetall_state hs, Except.map]
  have hcount : s.hlen .admissionState = .ok (slots s).keys.length := by
    simp [Store.hlen, hgetall_state hs, Except.map]
  simp only [validate, htype, httl, hget, hcount, hgetall_state hs, ok_bind, hs.fields.config, hg,
    Option.any_some, g.property.1, g.property.2, hvalid]
  simp [Nat.not_lt.mpr hlen]

/-- A state that validates is a persistent hash. -/
theorem state_of_validate (h : validate site s = .ok ()) :
    s.find .admissionState = some ⟨.hash (slots s), none⟩ := by
  obtain ⟨hshape, h⟩ := check_eq_ok.mp h
  push Not at hshape
  obtain ⟨htype, httl⟩ := hshape
  obtain ⟨config, hconfig, -⟩ := bind_eq_ok.mp h
  rcases hf : s.find .admissionState with _ | ⟨v, expireAt⟩
  · simp [Store.typeOf, hf] at htype
  cases v with
  | hash fields =>
    cases expireAt with
    | none => simp [slots, hf]
    | some e =>
      simp only [Store.ttl, hf] at httl
      omega
  | str v => simp [Store.typeOf, hf] at htype
  | other t => simp [Store.hget, Store.hgetall, hf, Except.map] at hconfig

theorem hset_run (hs : Sound site s) (f v : Bytes) :
    (Script.hset .admissionState f v).run s = (.ok (), withFields s ((slots s).insert f v)) :=
  Script.hset_of_hash f v hs.state

/-- Slots are never the last field: the configuration stays. -/
theorem hdel_run (hs : Sound site s) {f : Bytes} (hf : f ≠ configField) :
    (Script.hdel .admissionState f).run s = (.ok (), withFields s ((slots s).erase f)) := by
  have hmem : configField ∈ ((slots s).erase f).keys := by
    rw [← AList.mem_keys, AList.mem_erase]
    exact ⟨hf.symm, AList.lookup_isSome.mp (by simp [hs.fields.config])⟩
  exact Script.hdel_of_hash hs.state (List.ne_nil_of_mem hmem)

theorem slot_ne_config (hb : site.config.Bounded) {i : ℕ} (hi : i < site.config.capacity) :
    Lua.tostring i ≠ configField ∧ Lua.tostring i ≠ generationField := by
  rw [tostring_slot hb hi]
  decide

theorem FieldsSound.insert_slot (hb : site.config.Bounded) {h : Fields} (hf : FieldsSound site h)
    {i : ℕ} (hi : i < site.config.capacity) (token : Token) :
    FieldsSound site (h.insert (Lua.tostring i) token.val) := by
  obtain ⟨hc, hg⟩ := slot_ne_config hb hi
  refine ⟨?_, ?_, ?_, ?_⟩
  · rw [AList.lookup_insert_ne hc.symm]
    exact hf.config
  · obtain ⟨g, hlook⟩ := hf.generation
    exact ⟨g, by rw [AList.lookup_insert_ne hg.symm, hlook]⟩
  · intro f hfk
    rw [← AList.mem_keys, AList.mem_insert] at hfk
    rcases hfk with rfl | hfk
    · exact Or.inr (Or.inr ⟨i, hi, rfl⟩)
    · exact hf.fields f (AList.mem_keys.mp hfk)
  · intro j hj t ht
    by_cases hij : Lua.tostring j = Lua.tostring i
    · rw [hij, AList.lookup_insert, Option.some.injEq] at ht
      exact ⟨token, ht.symm⟩
    · rw [AList.lookup_insert_ne hij] at ht
      exact hf.tokens j hj t ht

theorem FieldsSound.insert_generation (hb : site.config.Bounded) {h : Fields}
    (hf : FieldsSound site h) (g : Generation) :
    FieldsSound site (h.insert generationField g.val) := by
  refine ⟨?_, ⟨g, AList.lookup_insert _⟩, ?_, ?_⟩
  · rw [AList.lookup_insert_ne (by decide)]
    exact hf.config
  · intro f hfk
    rw [← AList.mem_keys, AList.mem_insert] at hfk
    rcases hfk with rfl | hfk
    · exact Or.inr (Or.inl rfl)
    · exact hf.fields f (AList.mem_keys.mp hfk)
  · intro j hj t ht
    rw [AList.lookup_insert_ne (slot_ne_config hb hj).2] at ht
    exact hf.tokens j hj t ht

theorem FieldsSound.erase_slot {h : Fields} (hf : FieldsSound site h) {slot : Bytes}
    (hc : slot ≠ configField) (hg : slot ≠ generationField) : FieldsSound site (h.erase slot) := by
  refine ⟨?_, ?_, ?_, ?_⟩
  · rw [AList.lookup_erase_ne hc.symm]
    exact hf.config
  · obtain ⟨g, hlook⟩ := hf.generation
    exact ⟨g, by rw [AList.lookup_erase_ne hg.symm, hlook]⟩
  · intro f hfk
    rw [← AList.mem_keys, AList.mem_erase] at hfk
    exact hf.fields f (AList.mem_keys.mp hfk.2)
  · intro j hj t ht
    by_cases hij : Lua.tostring j = slot
    · rw [hij, AList.lookup_erase] at ht
      cases ht
    · rw [AList.lookup_erase_ne hij] at ht
      exact hf.tokens j hj t ht

theorem firstFree_some {capacity : ℕ} {h : Fields} {slot : Bytes}
    (hfree : firstFree capacity h = some slot) :
    ∃ i < capacity, slot = Lua.tostring i ∧ h.lookup slot = none := by
  have hmem := List.mem_of_find?_eq_some hfree
  have hnone := List.find?_some hfree
  obtain ⟨i, hi, rfl⟩ := List.mem_map.mp hmem
  exact ⟨i, List.mem_range.mp hi, rfl, Option.isNone_iff_eq_none.mp hnone⟩

end State

section Acquire
variable {site : Site} {s : Store Key}

theorem readGlobal_ok (hb : site.config.Bounded) (hs : Sound site s) :
    readCounter .syncGlobal site.config.globalMax site.config.window s = .ok (count s .syncGlobal) :=
  readCounter_ok (hs.counters _ _ rfl) hb.globalMax.2

theorem readSource_ok (hb : site.config.Bounded) (hs : Sound site s) (source : Bytes) :
    readCounter (.syncSource source) site.config.sourceMax site.config.window s =
      .ok (count s (.syncSource source)) :=
  readCounter_ok (hs.counters _ _ rfl) hb.sourceMax.2

theorem readCredential_ok (hb : site.config.Bounded) (hs : Sound site s) (credential : Bytes) :
    readCounter (.syncCredential credential) site.config.credentialMax site.config.window s =
      .ok (count s (.syncCredential credential)) :=
  readCounter_ok (hs.counters _ _ rfl) hb.credentialMax.2

/-- The store after an admission. -/
def admitted (site : Site) (s : Store Key) (source credential slot token : Bytes) : Store Key :=
  let w := site.config.width
  let t := bumped (bumped (bumped s .syncGlobal w) (.syncSource source) w) (.syncCredential credential) w
  withFields t ((slots t).insert slot token)

/-- Everything `ACQUIRE` can do on a sound store. -/
inductive AcquireOutcome (site : Site) (s : Store Key) (source credential token : Bytes) :
    Except Error Reply × Store Key → Prop
  /-- The global counter is at its limit; nothing is written. -/
  | saturated (retry : ℤ) (hg : site.config.globalMax ≤ count s .syncGlobal) :
      AcquireOutcome site s source credential token (.ok (.rejected retry), s)
  /-- Past the global gate, stopped by an identity limit or by occupied slots. -/
  | limited (retry : ℤ) (hg : count s .syncGlobal < site.config.globalMax) :
      AcquireOutcome site s source credential token
        (.ok (.rejected retry), bumped s .syncGlobal site.config.width)
  | granted (i : ℕ) (hg : count s .syncGlobal < site.config.globalMax)
      (hsrc : count s (.syncSource source) < site.config.sourceMax)
      (hcred : count s (.syncCredential credential) < site.config.credentialMax)
      (hi : i < site.config.capacity) (hfree : (slots s).lookup (Lua.tostring i) = none) :
      AcquireOutcome site s source credential token
        (.ok (.granted (Lua.tostring i)), admitted site s source credential (Lua.tostring i) token)

theorem count_bumped_ne (s : Store Key) {k k' : Key} (width : ℕ) (h : k' ≠ k) :
    count (bumped s k width) k' = count s k' := by
  unfold count
  rw [cell_bumped_ne s width h]

/-- What `ACQUIRE` read before its first write. -/
structure Admissible (site : Site) (s : Store Key) (source credential : Bytes) : Prop where
  state : validate site s = .ok ()
  globalCount : readCounter .syncGlobal site.config.globalMax site.config.window s =
    .ok (count s .syncGlobal)
  sourceCount : readCounter (.syncSource source) site.config.sourceMax site.config.window s =
    .ok (count s (.syncSource source))
  credentialCount : readCounter (.syncCredential credential) site.config.credentialMax
    site.config.window s = .ok (count s (.syncCredential credential))

theorem acquire_of_admissible (hb : site.config.Bounded) {source credential : Bytes}
    (ha : Admissible site s source credential) (token : Bytes) :
    AcquireOutcome site s source credential token ((acquire site source credential token).run s) := by
  simp only [acquire, Script.run_query_bind, ha.state, ha.globalCount, ha.sourceCount,
    ha.credentialCount]
  rw [Script.run_ite]
  split
  · next h => exact .saturated _ h
  next hglobal =>
  rw [not_le] at hglobal
  rw [Script.run_bind_ok (bump_of_read ha.globalCount hb.globalMax.2 hb.window)]
  rw [Script.run_ite]
  split
  · exact .limited _ hglobal
  next hsource =>
  rw [Script.run_ite]
  split
  · exact .limited _ hglobal
  next hcredential =>
  rw [not_le] at hsource hcredential
  have hstate := state_of_validate ha.state
  rw [Script.run_query_bind, Store.hgetall, bumped_find_ne _ _ (by simp), hstate]
  simp only
  split
  · exact .limited _ hglobal
  next slot hslot =>
  obtain ⟨i, hi, rfl, hfree⟩ := firstFree_some hslot
  -- The three counters and the state are distinct keys, so the earlier reads stay valid.
  have hsrc := readCounter_bumped (k := .syncGlobal) (site.config.window * 1000) (by simp)
    ha.sourceCount
  have hcred := readCounter_bumped (k := .syncSource source) (site.config.window * 1000) (by simp)
    (readCounter_bumped (k := .syncGlobal) (site.config.window * 1000) (by simp) ha.credentialCount)
  rw [Script.run_bind_ok (bump_of_read hsrc hb.sourceMax.2 hb.window),
    Script.run_bind_ok (bump_of_read hcred hb.credentialMax.2 hb.window)]
  rw [← bumped_find_ne s (site.config.window * 1000) (k := .syncGlobal) (by simp),
    ← bumped_find_ne _ (site.config.window * 1000) (k := .syncSource source) (by simp),
    ← bumped_find_ne _ (site.config.window * 1000) (k := .syncCredential credential) (by simp)]
    at hstate
  rw [Script.run_bind_ok (Script.hset_of_hash _ _ hstate)]
  have hgranted := @AcquireOutcome.granted _ _ _ _ token i hglobal hsource hcredential hi hfree
  rw [admitted, slots_bumped _ _ (by simp), slots_bumped _ _ (by simp), slots_bumped _ _ (by simp)]
    at hgranted
  exact hgranted

theorem acquire_outcome (hb : site.config.Bounded) (hs : Sound site s)
    (source credential token : Bytes) :
    AcquireOutcome site s source credential token ((acquire site source credential token).run s) :=
  acquire_of_admissible hb ⟨validate_ok hb hs, readGlobal_ok hb hs, readSource_ok hb hs source,
    readCredential_ok hb hs credential⟩ token

theorem acquire_sound (hb : site.config.Bounded) (hs : Sound site s)
    (source credential : Bytes) (token : Token) :
    Sound site ((acquire site source credential token).run s).2 := by
  have h := acquire_outcome hb hs source credential token.val
  generalize (acquire site source credential token).run s = r at h
  cases h with
  | saturated retry hg => exact hs
  | limited retry hg => exact hs.bumped rfl hg
  | granted i hg hsrc hcred hi hfree =>
    have hs1 := hs.bumped rfl hg
    have hs2 := hs1.bumped (k := .syncSource source) rfl
      (by rwa [count_bumped_ne _ _ (by simp)])
    have hs3 := hs2.bumped (k := .syncCredential credential) rfl
      (by rwa [count_bumped_ne _ _ (by simp), count_bumped_ne _ _ (by simp)])
    exact hs3.withFields (hs3.fields.insert_slot hb hi token)

end Acquire
end Admission
