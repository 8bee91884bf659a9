import AzdSanta.Admission.Invariant

/-! Runs of the admission scripts over one store, from its fresh initialization. -/
namespace Admission
open Redis SecurityStore Checks FixedWindow

/-- One script evaluation. Slots are sent as the text of their number. -/
inductive Call where
  | acquire (source credential : Bytes) (token : Token)
  | release (slot : ℕ) (token : Token)
  | reconcile (generation : Generation)
  | check
  | empty

def Call.script (site : Site) : Call → Script Key Reply
  | .acquire source credential token => Admission.acquire site source credential token
  | .release slot token => Admission.release site (Lua.tostring slot) token
  | .reconcile generation => Admission.reconcile site generation
  | .check => Admission.check site
  | .empty => Admission.empty site

def Call.run (site : Site) (call : Call) (s : Store Key) : Except Error Reply × Store Key :=
  (eval site (call.script site)).run s

inductive Step where
  | issue (call : Call)
  | advance (ms : ℕ)

def Step.apply (site : Site) : Step → Store Key → Store Key
  | .issue call, s => (call.run site s).2
  | .advance ms, s => s.advance ms

/-- The store after `steps`, newest first. -/
def run (site : Site) (start : Store Key) : List Step → Store Key
  | [] => start
  | step :: earlier => step.apply site (run site start earlier)

theorem eval_run (site : Site) (script : Script Key Reply) (s : Store Key) :
    (∃ e, storeGuard site.storeId s = .error e ∧ (eval site script).run s = (.error e, s)) ∨
    (storeGuard site.storeId s = .ok () ∧ (eval site script).run s = script.run s) :=
  storeOperation_run site.storeId script s

section Sound
variable {site : Site} {s : Store Key}

theorem tostring_ne_metadata (i : ℕ) :
    Lua.tostring i ≠ configField ∧ Lua.tostring i ≠ generationField := by
  obtain ⟨d, rest, hd, hdigit⟩ := Lua.tostring_head i
  rw [hd]
  constructor <;>
  · intro h
    obtain rfl := (List.cons.inj h).1
    exact absurd hdigit (by decide)

theorem release_run (hb : site.config.Bounded) (hs : Sound site s) (slot : ℕ) (token : Bytes) :
    (release site (Lua.tostring slot) token).run s =
      if (slots s).lookup (Lua.tostring slot) = some token then
        (.ok (.number 1), withFields s ((slots s).erase (Lua.tostring slot)))
      else (.ok (.number 0), s) := by
  have hget : s.hget .admissionState (Lua.tostring slot) =
      .ok ((slots s).lookup (Lua.tostring slot)) := by
    simp [Store.hget, hgetall_state hs, Except.map]
  simp only [release, Script.run_query_bind, validate_ok hb hs, hget, Script.run_ite, ne_eq, ite_not,
    Script.run_bind_ok (hdel_run hs (tostring_ne_metadata slot).1), Script.run_pure]

theorem globalCounter_ok (hb : site.config.Bounded) (hs : Sound site s) :
    globalCounter site s = .ok () := by
  have htype : s.typeOf .syncGlobal = "none" ∨ s.typeOf .syncGlobal = "string" := by
    rcases (hs.counters .syncGlobal _ rfl).cases with ⟨hf, -⟩ | ⟨n, e, hf, -⟩
    · simp [Store.typeOf, hf]
    · simp [Store.typeOf, hf, counterEntry]
  have hpass : ¬ (s.typeOf .syncGlobal ≠ "none" ∧ s.typeOf .syncGlobal ≠ "string") := by tauto
  simp only [globalCounter, if_neg hpass, readGlobal_ok hb hs, ok_bind, pure_eq_ok]

theorem check_run (hb : site.config.Bounded) (hs : Sound site s) :
    (check site).run s = (.ok (.number 1), s) := by
  simp [check, validate_ok hb hs, globalCounter_ok hb hs]

theorem empty_run (hb : site.config.Bounded) (hs : Sound site s) :
    (empty site).run s = if (slots s).keys.length = 2 then (.ok (.number 1), s)
      else (.error quiescenceRequired, s) := by
  have hlen : s.hlen .admissionState = .ok (slots s).keys.length := by
    simp [Store.hlen, hgetall_state hs, Except.map]
  simp only [empty, Script.run_query_bind, validate_ok hb hs, globalCounter_ok hb hs, hlen,
    Script.run_ite, ne_eq, ite_not, Script.run_fail, Script.run_pure]

theorem withFields_withFields (s : Store Key) (h h' : Fields) :
    withFields (withFields s h) h' = withFields s h' := by
  simp [withFields, Store.write]

theorem reconcile_run (hb : site.config.Bounded) (hs : Sound site s) (generation : Bytes) :
    (reconcile site generation).run s = (.ok (.number 1),
      withFields s (((slots s).erase ['0']).insert generationField generation)) := by
  have hzero : Lua.tostring 0 = ['0'] := rfl
  have hs' : Sound site (withFields s ((slots s).erase ['0'])) :=
    hs.withFields (hs.fields.erase_slot (by decide) (by decide))
  have hdel : (deleteSlots (List.range site.config.capacity)).run s =
      (.ok (), withFields s ((slots s).erase ['0'])) := by
    rw [hb.capacity, List.range_one, deleteSlots, hzero,
      Script.run_bind_ok (hdel_run hs (by decide))]
    rfl
  simp only [reconcile, Script.run_query_bind, validate_ok hb hs, Script.run_bind_ok hdel,
    Script.run_bind_ok (hset_run hs' _ _), Script.run_pure, slots_withFields, withFields_withFields]

theorem Call.script_sound (hb : site.config.Bounded) (hs : Sound site s) (call : Call) :
    Sound site ((call.script site).run s).2 := by
  cases call with
  | acquire source credential token => exact acquire_sound hb hs source credential token
  | release slot token =>
    rw [Call.script, release_run hb hs]
    split
    · exact hs.withFields (hs.fields.erase_slot (tostring_ne_metadata slot).1
        (tostring_ne_metadata slot).2)
    · exact hs
  | reconcile generation =>
    rw [Call.script, reconcile_run hb hs]
    exact hs.withFields ((hs.fields.erase_slot (by decide) (by decide)).insert_generation hb generation)
  | check => rwa [Call.script, check_run hb hs]
  | empty =>
    rw [Call.script, empty_run hb hs]
    split <;> exact hs

theorem Step.sound (hb : site.config.Bounded) (hs : Sound site s) (step : Step) :
    Sound site (step.apply site s) := by
  cases step with
  | advance ms => exact hs.advance ms
  | issue call =>
    rcases eval_run site (call.script site) s with ⟨e, -, h⟩ | ⟨-, h⟩
    · simpa only [Step.apply, Call.run, h] using hs
    · simpa only [Step.apply, Call.run, h] using call.script_sound hb hs

theorem freshStore_eq (site : Site) (now delay : ℕ) (generation : Generation) :
    freshStore site now delay generation =
      withFields ((Store.empty now).write .marker
          (some ⟨.str (markerText site.storeId (now / 1000 + delay)), none⟩))
        ((AList.insert configField site.fingerprint ∅).insert generationField generation.val) := by
  have hm : (Store.empty now : Store Key).exist .marker = false := rfl
  have hst : (Store.empty now : Store Key).exist .admissionState = false := rfl
  simp only [freshStore, initializeFresh, Script.run_query_bind, hm, hst, Bool.or_self,
    Bool.false_eq_true, if_false, Script.set, Script.run_modify_bind]
  rw [Script.run_bind_ok (Script.hset_of_absent _ _ rfl),
    Script.run_bind_ok (Script.hset_of_hash _ _ (Store.write_find_self _ _ _ rfl))]
  exact withFields_withFields _ _ _

theorem freshStore_sound (site : Site) (now delay : ℕ) (generation : Generation) :
    Sound site (freshStore site now delay generation) := by
  have hfields : FieldsSound site
      ((AList.insert configField site.fingerprint ∅).insert generationField generation.val) := by
    refine ⟨?_, ⟨generation, AList.lookup_insert _⟩, ?_, ?_⟩
    · rw [AList.lookup_insert_ne (by decide), AList.lookup_insert]
    · intro f hf
      rw [← AList.mem_keys, AList.mem_insert, AList.mem_insert] at hf
      rcases hf with rfl | rfl | hf
      · exact Or.inr (Or.inl rfl)
      · exact Or.inl rfl
      · exact absurd hf (AList.notMem_empty f)
    · intro i _ t ht
      obtain ⟨hc, hg⟩ := tostring_ne_metadata i
      rw [AList.lookup_insert_ne hg, AList.lookup_insert_ne hc, AList.lookup_empty] at ht
      cases ht
  rw [freshStore_eq]
  refine ⟨?_, ?_, ?_⟩
  · rw [slots_withFields, withFields_find]
  · rwa [slots_withFields]
  · intro k limit hk entry hentry
    rw [withFields_find_ne _ _ (limitOf_ne_state hk)] at hentry
    have hmarker : k ≠ .marker := by
      rintro rfl
      cases hk
    rw [Store.write_find_ne _ _ hmarker] at hentry
    cases hentry

theorem run_sound (hb : site.config.Bounded) {start : Store Key} (hs : Sound site start)
    (steps : List Step) : Sound site (run site start steps) := by
  induction steps with
  | nil => exact hs
  | cons step earlier ih => exact step.sound hb ih

theorem Call.run_ne_unavailable (hb : site.config.Bounded) (hs : Sound site s) (call : Call) :
    (call.run site s).1 ≠ .error admissionUnavailable := by
  rcases eval_run site (call.script site) s with ⟨e, hg, h⟩ | ⟨-, h⟩ <;>
    simp only [Call.run, h]
  · rintro ⟨⟩
    rcases storeGuard_error hg with he | he <;> exact absurd he (by decide)
  cases call with
  | acquire source credential token =>
    have hout := acquire_outcome hb hs source credential token.val
    simp only [Call.script]
    generalize (Admission.acquire site source credential token).run s = r at hout ⊢
    cases hout <;> simp
  | release slot token =>
    rw [Call.script, release_run hb hs]
    split <;> simp
  | reconcile generation => simp [Call.script, reconcile_run hb hs]
  | check => simp [Call.script, check_run hb hs]
  | empty =>
    rw [Call.script, empty_run hb hs]
    split
    · simp
    · exact fun h => absurd (Except.error.inj h) (by decide)

theorem limitOf_le (hb : site.config.Bounded) {k : Key} {limit : ℕ}
    (hk : site.config.limitOf k = some limit) : limit ≤ 1200 := by
  cases k <;> cases hk
  · exact hb.globalMax.2
  · exact hb.sourceMax.2
  · exact hb.credentialMax.2

end Sound

/-- The scripts never leave the set of stores they accept: in every store reached from a
fresh initialization all checks pass, every live counter is canonical and bounded, and
the state hash holds exactly its metadata and at most the configured slots. -/
theorem store_never_corrupt {network : String → Except String ℕ} {environ : Environ} {site : Site}
    (hcfg : configured network environ = .ok site.config) (now delay : ℕ) (generation : Generation)
    (steps : List Step) :
    let s := run site (freshStore site now delay generation) steps
    validate site s = .ok () ∧
    (∀ k limit, site.config.limitOf k = some limit →
      ∃ n, readCounter k limit site.config.window s = .ok n) ∧
    globalCounter site s = .ok () ∧
    (∀ call : Call, (call.run site s).1 ≠ .error admissionUnavailable) ∧
    (∀ k limit, site.config.limitOf k = some limit → ∀ entry, s.find k = some entry →
      ∃ n, entry.value = .str (Nat.toDigits 10 n) ∧ 1 ≤ n ∧ n ≤ limit ∧
        0 ≤ s.ttl k ∧ s.ttl k ≤ site.config.window) ∧
    s.find .admissionState = some ⟨.hash (slots s), none⟩ ∧
    FieldsSound site (slots s) ∧ (slots s).keys.length ≤ 2 + site.config.capacity := by
  intro s
  have hb := configured_bounded hcfg
  have hs : Sound site s := run_sound hb (freshStore_sound site now delay generation) steps
  refine ⟨validate_ok hb hs, ?_, globalCounter_ok hb hs, Call.run_ne_unavailable hb hs, ?_,
    hs.state, hs.fields, fieldsSound_length hs.fields⟩
  · intro k limit hk
    exact ⟨_, readCounter_ok (hs.counters k limit hk) (limitOf_le hb hk)⟩
  · intro k limit hk entry hentry
    obtain ⟨n, e, rfl, hn, hnl, -⟩ := hs.counters k limit hk entry hentry
    exact ⟨n, rfl, hn, hnl, (hs.counters k limit hk).ttl_bounds hentry⟩

def sampleSite : Site where
  storeId := "0a".toList
  fingerprint := "f".toList
  config := {}

def sampleToken (c : Char) (hc : Lua.urlsafe c = true) : Token :=
  ⟨List.replicate 43 c, by simp, by simpa [Lua.matchAll] using hc⟩

def sampleGeneration : Generation := ⟨List.replicate 32 'b', by simp, by decide⟩

def firstToken : Token := sampleToken 'x' rfl

def secondToken : Token := sampleToken 'y' rfl

/-- Two admissions with a release and more than a window between them, newest first. -/
def sampleSteps : List Step :=
  [.issue (.acquire "s".toList "c".toList secondToken), .advance 60001,
    .issue (.release 0 firstToken), .issue (.acquire "s".toList "c".toList firstToken)]

theorem store_never_corrupt_sample :
    configured (fun _ => .ok 32) (fun _ => none) = .ok sampleSite.config ∧
    validate sampleSite (run sampleSite (freshStore sampleSite 5000 0 sampleGeneration) sampleSteps) =
      .ok () :=
  ⟨by rfl, (@store_never_corrupt (fun _ => .ok 32) (fun _ => none) sampleSite (by rfl) 5000 0
    sampleGeneration sampleSteps).1⟩

end Admission
