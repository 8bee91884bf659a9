import AzdSanta.Admission.Runs

/-! The scripts on an arbitrary keyspace, corrupt or not. Redis keeps the writes of a
script that fails later, so every command that can fail stands before the first write. -/
namespace Admission
open Redis SecurityStore Checks

section Scripts
variable {site : Site} {s : Store Key}

theorem eval_failsClosed {script : Script Key Reply} (h : Script.FailsClosed script s) :
    Script.FailsClosed (eval site script) s :=
  Script.failsClosed_query_bind fun _ _ => h

/-- The reads of `ACQUIRE` fail, or all of them pass. -/
theorem acquire_failsClosed (hb : site.config.Bounded) (source credential token : Bytes) :
    Script.FailsClosed (acquire site source credential token) s := by
  refine Script.failsClosed_query_bind fun _ hstate => ?_
  refine Script.failsClosed_query_bind fun g hg => ?_
  refine Script.failsClosed_query_bind fun n hn => ?_
  refine Script.failsClosed_query_bind fun c hc => ?_
  obtain rfl := count_of_read hg
  obtain rfl := count_of_read hn
  obtain rfl := count_of_read hc
  -- With every read known, the remaining script is the whole one.
  have hrest := acquire_of_admissible hb ⟨hstate, hg, hn, hc⟩ token
  simp only [acquire, Script.run_query_bind, hstate, hg, hn, hc] at hrest
  intro e t he
  rw [he] at hrest
  cases hrest

theorem release_failsClosed (slot token : Bytes) :
    Script.FailsClosed (release site slot token) s := by
  refine Script.failsClosed_query_bind fun _ hstate => ?_
  refine Script.failsClosed_query_bind fun held _ => ?_
  refine Script.failsClosed_ite (fun _ => Script.failsClosed_of_ok (Script.run_pure _ _)) fun _ => ?_
  have hgetall : s.hgetall .admissionState = .ok (slots s) := by
    rw [Store.hgetall, state_of_validate hstate]
  obtain ⟨t, _, hdel, -⟩ := Script.hdel_of_hgetall slot hgetall
  exact Script.failsClosed_of_ok (by rw [Script.run_bind_ok hdel, Script.run_pure])

theorem deleteSlots_run (is : List ℕ) {fields : Fields} {s : Store Key}
    (h : s.hgetall .admissionState = .ok fields) : ∃ t fields',
      (deleteSlots is).run s = (.ok (), t) ∧ t.hgetall .admissionState = .ok fields' := by
  induction is generalizing s fields with
  | nil => exact ⟨s, fields, rfl, h⟩
  | cons i rest ih =>
    obtain ⟨t, fields', hdel, ht⟩ := Script.hdel_of_hgetall (Lua.tostring i) h
    rw [deleteSlots, Script.run_bind_ok hdel]
    exact ih ht

theorem reconcile_failsClosed (generation : Bytes) :
    Script.FailsClosed (reconcile site generation) s := by
  refine Script.failsClosed_query_bind fun _ hstate => ?_
  have hgetall : s.hgetall .admissionState = .ok (slots s) := by
    rw [Store.hgetall, state_of_validate hstate]
  obtain ⟨t, fields, hdelete, ht⟩ := deleteSlots_run (List.range site.config.capacity) hgetall
  have hset : ∃ u, (Script.hset .admissionState generationField generation).run t = (.ok (), u) := by
    simp [Script.run, Script.hset, ht]
  obtain ⟨u, hu⟩ := hset
  refine Script.failsClosed_of_ok (a := .number 1) (t := u) ?_
  rw [Script.run_bind_ok hdelete, Script.run_bind_ok hu, Script.run_pure]

theorem check_keeps (site : Site) (s : Store Key) : ((eval site (check site)).run s).2 = s :=
  Script.run_query_bind_snd fun _ => Script.run_query_bind_snd fun _ =>
    Script.run_query_bind_snd fun _ => rfl

theorem empty_keeps (site : Site) (s : Store Key) : ((eval site (empty site)).run s).2 = s := by
  refine Script.run_query_bind_snd fun _ => Script.run_query_bind_snd fun _ => ?_
  refine Script.run_query_bind_snd fun _ => Script.run_query_bind_snd fun fields => ?_
  rw [Script.run_ite]
  split <;> rfl

end Scripts

/-- The counters of one request with their limits. -/
def Config.counters (c : Config) (source credential : Bytes) : List (Key × ℕ) :=
  [(.syncGlobal, c.globalMax), (.syncSource source, c.sourceMax),
    (.syncCredential credential, c.credentialMax)]

/-- One hit on a counter: created with a full window, or increased with its expiry kept. -/
inductive Hit (c : Config) (limit : ℕ) (k : Key) (s t : Store Key) : Prop
  | created (absent : s.find k = none) (after : t.find k = some (counterEntry 1 (s.now + c.width)))
  | increased (n e : ℕ) (before : s.find k = some (counterEntry n e)) (positive : 1 ≤ n)
      (within : n < limit) (running : 0 ≤ s.ttl k ∧ s.ttl k ≤ c.window)
      (after : t.find k = some (counterEntry (n + 1) e))

/-- Everything behind a reply `{1, slot}`: what was found and what was written. -/
structure Grant (site : Site) (source credential token slot : Bytes) (s t : Store Key) : Prop where
  marker : ∃ marker ready, s.get .marker = .ok (some marker) ∧
    parseMarker marker = some (site.storeId, ready) ∧ ready ≤ s.seconds
  state : validate site s = .ok ()
  numbered : ∃ i < site.config.capacity, slot = Lua.tostring i
  free : (slots s).lookup slot = none
  counters : ∀ p ∈ site.config.counters source credential, Hit site.config p.2 p.1 s t
  before : s.find .admissionState = some ⟨.hash (slots s), none⟩
  after : t.find .admissionState = some ⟨.hash ((slots s).insert slot token), none⟩
  others : ∀ k, k ≠ .admissionState → k ∉ (site.config.counters source credential).map Prod.fst →
    t.data k = s.data k
  clock : t.now = s.now

section Grants
variable {site : Site} {s : Store Key} {source credential : Bytes}

theorem hit_of_read {k : Key} {limit : ℕ} {t : Store Key}
    (h : readCounter k limit site.config.window s = .ok (count s k)) (hlt : count s k < limit)
    (ht : t.find k = (bumped s k site.config.width).find k) : Hit site.config limit k s t := by
  rw [bumped_find_self] at ht
  rcases readCounter_cases h with ⟨hf, -⟩ | ⟨e, hf, hpos, -, hlo, hhi⟩
  · rw [cell_of_find_none hf] at ht
    exact .created hf ht
  · rw [cell_of_find hf] at ht
    exact .increased _ e hf hpos hlt ⟨hlo, hhi⟩ ht

/-- A bump elsewhere leaves the cell that the next bump reads. -/
theorem bumped_find_congr {t : Store Key} (k : Key) (width : ℕ) (hn : t.now = s.now)
    (hf : t.find k = s.find k) : (bumped t k width).find k = (bumped s k width).find k := by
  rw [bumped_find_self, bumped_find_self, cell_congr hf, hn]

/-- What an admission leaves under the four keys it writes, and elsewhere. -/
theorem admitted_find (site : Site) (s : Store Key) (source credential slot token : Bytes) :
    let t := admitted site s source credential slot token
    let w := site.config.width
    t.find .syncGlobal = (bumped s .syncGlobal w).find .syncGlobal ∧
    t.find (.syncSource source) = (bumped s (.syncSource source) w).find (.syncSource source) ∧
    t.find (.syncCredential credential) =
      (bumped s (.syncCredential credential) w).find (.syncCredential credential) ∧
    t.find .admissionState = some ⟨.hash ((slots s).insert slot token), none⟩ := by
  dsimp only [admitted]
  generalize site.config.width = w
  have hsource := bumped_find_ne s w (show Key.syncSource source ≠ .syncGlobal by simp)
  have hcredential := bumped_find_ne s w (show Key.syncCredential credential ≠ .syncGlobal by simp)
  refine ⟨?_, ?_, ?_, ?_⟩
  · rw [withFields_find_ne _ _ (by simp), bumped_find_ne _ _ (by simp), bumped_find_ne _ _ (by simp)]
  · rw [withFields_find_ne _ _ (by simp), bumped_find_ne _ _ (by simp)]
    exact bumped_find_congr _ _ rfl hsource
  · rw [withFields_find_ne _ _ (by simp)]
    refine bumped_find_congr _ _ rfl ?_
    rw [bumped_find_ne _ _ (by simp), hcredential]
  · rw [withFields_find, slots_bumped _ _ (by simp), slots_bumped _ _ (by simp),
      slots_bumped _ _ (by simp)]

theorem admitted_data (site : Site) (s : Store Key) (source credential slot token : Bytes) {k : Key}
    (hstate : k ≠ .admissionState)
    (hk : k ∉ (site.config.counters source credential).map Prod.fst) :
    (admitted site s source credential slot token).data k = s.data k := by
  simp only [Config.counters, List.map_cons, List.map_nil, List.mem_cons, List.not_mem_nil, or_false,
    not_or] at hk
  obtain ⟨hglobal, hsource, hcredential⟩ := hk
  simp only [admitted, withFields, bumped, Store.write_data, if_neg hstate, if_neg hglobal,
    if_neg hsource, if_neg hcredential]

theorem grant_of_acquire (hb : site.config.Bounded) {token slot : Bytes} {t : Store Key}
    (h : (eval site (acquire site source credential token)).run s = (.ok (.granted slot), t)) :
    Grant site source credential token slot s t := by
  rcases storeOperation_run site.storeId (acquire site source credential token) s with
    ⟨e, -, hrefused⟩ | ⟨hguard, hrun⟩
  · rw [eval, hrefused] at h
    cases h
  rw [eval, hrun] at h
  -- The reads passed: a failed one would have been the reply.
  have hreads : Admissible site s source credential := by
    simp only [acquire, Script.run_query_bind] at h
    rcases hstate : validate site s with e | ⟨⟩ <;> simp only [hstate] at h
    · cases h
    rcases hg : readCounter .syncGlobal site.config.globalMax site.config.window s with e | g <;>
      simp only [hg] at h
    · cases h
    rcases hn : readCounter (.syncSource source) site.config.sourceMax site.config.window s with
      e | n <;> simp only [hn] at h
    · cases h
    rcases hc : readCounter (.syncCredential credential) site.config.credentialMax
      site.config.window s with e | c <;> simp only [hc] at h
    · cases h
    obtain rfl := count_of_read hg
    obtain rfl := count_of_read hn
    obtain rfl := count_of_read hc
    exact ⟨hstate, hg, hn, hc⟩
  have houtcome := acquire_of_admissible hb hreads token
  rw [h] at houtcome
  cases houtcome with
  | granted i hglobal hsource hcredential hi hfree =>
    obtain ⟨hg, hn, hc, hstate⟩ := admitted_find site s source credential (Lua.tostring i) token
    refine ⟨storeGuard_eq_ok.mp hguard, hreads.state, ⟨i, hi, rfl⟩, hfree, ?_,
      state_of_validate hreads.state, hstate, fun k => admitted_data site s _ _ _ _, rfl⟩
    simp only [Config.counters, List.mem_cons, List.not_mem_nil, or_false, forall_eq_or_imp,
      forall_eq]
    exact ⟨hit_of_read hreads.globalCount hglobal hg, hit_of_read hreads.sourceCount hsource hn,
      hit_of_read hreads.credentialCount hcredential hc⟩

end Grants

/-- On every keyspace the scripts fail without a partial write, the read-only ones never
write, and a grant rests on a ready marker, a valid state and sound counters. -/
theorem scripts_fail_closed {network : String → Except String ℕ} {environ : Environ} {site : Site}
    (hcfg : configured network environ = .ok site.config) (s : Store Key) :
    (∀ source credential token,
      Script.FailsClosed (eval site (acquire site source credential token)) s) ∧
    (∀ slot token, Script.FailsClosed (eval site (release site slot token)) s) ∧
    (∀ generation, Script.FailsClosed (eval site (reconcile site generation)) s) ∧
    ((eval site (check site)).run s).2 = s ∧
    ((eval site (empty site)).run s).2 = s ∧
    ∀ source credential token slot t,
      (eval site (acquire site source credential token)).run s = (.ok (.granted slot), t) →
      Grant site source credential token slot s t := by
  have hb := configured_bounded hcfg
  refine ⟨?_, ?_, ?_, check_keeps site s, empty_keeps site s, ?_⟩
  · intro source credential token
    exact eval_failsClosed (acquire_failsClosed hb source credential token)
  · intro slot token
    exact eval_failsClosed (release_failsClosed slot token)
  · intro generation
    exact eval_failsClosed (reconcile_failsClosed generation)
  · intro source credential token slot t h
    exact grant_of_acquire hb h

/-- A store whose source counter is a list. -/
def brokenStore : Store Key :=
  (freshStore sampleSite 5000 0 sampleGeneration).write (.syncSource ['a']) (some ⟨.other "list", none⟩)

/-- The source counter cannot be read, after the state and the global counter were. -/
theorem scripts_fail_closed_broken :
    configured (fun _ => .ok 32) (fun _ => none) = .ok sampleSite.config ∧
    (eval sampleSite (acquire sampleSite ['a'] ['b'] ['t'])).run brokenStore =
      (.error .wrongType, brokenStore) := by
  have hcfg : configured (fun _ => .ok 32) (fun _ => none) = .ok sampleSite.config := by rfl
  have herror : ((eval sampleSite (acquire sampleSite ['a'] ['b'] ['t'])).run brokenStore).1 =
      .error .wrongType := by rfl
  refine ⟨hcfg, Prod.ext herror ?_⟩
  exact (scripts_fail_closed hcfg brokenStore).1 ['a'] ['b'] ['t'] .wrongType _
    (Prod.ext herror rfl)

end Admission
