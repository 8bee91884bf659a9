import AzdSanta.Admission.Runs
import Mathlib.Data.Set.Card

/-! Rate limits of admission over whole runs: what each counter counts, for how long,
and how many identity keys can be alive at once. -/
namespace Admission
open Redis SecurityStore Checks FixedWindow

/-- Whether a call counts under `k`: at the global counter every call that gets past the
global gate, at an identity counter every admission of that identity. -/
def counts (site : Site) (s : Store Key) (k : Key) : Call → Except Error Reply → Bool
  | .acquire source credential _, .ok reply =>
    match k, reply with
    | .syncGlobal, _ => count s .syncGlobal < site.config.globalMax
    | .syncSource mac, .granted _ => mac = source
    | .syncCredential mac, .granted _ => mac = credential
    | _, _ => false
  | _, _ => false

/-- A step of a run with the store it started from. -/
structure Event where
  before : Store Key
  step : Step

namespace Event
variable (site : Site)

def after (e : Event) : Store Key := e.step.apply site e.before

def hits (k : Key) (e : Event) : Bool :=
  match e.step with
  | .issue call => counts site e.before k call (call.run site e.before).1
  | .advance _ => false

def admits (e : Event) : Bool :=
  match e.step with
  | .issue call =>
    match (call.run site e.before).1 with
    | .ok (.granted _) => true
    | _ => false
  | .advance _ => false

def within (width a : ℕ) (e : Event) : Bool := a ≤ e.before.now && e.before.now ≤ a + width

end Event

/-- The events of a run, newest first. -/
def trace (site : Site) (start : Store Key) : List Step → List Event
  | [] => []
  | step :: earlier => ⟨run site start earlier, step⟩ :: trace site start earlier

/-- The events since a live key was created, the creating one included. -/
def sinceCreated (k : Key) : List Event → List Event
  | [] => []
  | e :: earlier => if e.before.exist k then e :: sinceCreated k earlier else [e]

section Cells
variable {site : Site} {s : Store Key} {k : Key} {limit : ℕ}

theorem limitOf_cases {c : Config} (hk : c.limitOf k = some limit) :
    (k = .syncGlobal ∧ limit = c.globalMax) ∨ (∃ mac, k = .syncSource mac ∧ limit = c.sourceMax) ∨
    ∃ mac, k = .syncCredential mac ∧ limit = c.credentialMax := by
  cases k <;> cases hk
  · exact Or.inl ⟨rfl, rfl⟩
  · exact Or.inr (Or.inl ⟨_, rfl, rfl⟩)
  · exact Or.inr (Or.inr ⟨_, rfl, rfl⟩)

theorem cell_withFields (s : Store Key) (h : Fields) (hk : k ≠ .admissionState) :
    cell (withFields s h) k = cell s k :=
  cell_congr (withFields_find_ne s h hk)

theorem find_of_cell {n e : ℕ} (h : cell s k = some (n, e)) :
    ∃ v, s.find k = some ⟨.str v, some e⟩ := by
  unfold cell at h
  split at h
  · next v e' hf =>
    obtain ⟨m, -, hme⟩ := Option.map_eq_some_iff.mp h
    obtain rfl := (Prod.mk.inj hme).2
    exact ⟨v, hf⟩
  · cases h

theorem cell_advance (s : Store Key) (k : Key) (ms : ℕ) :
    cell (s.advance ms) k = (cell s k).filter fun c => (s.advance ms).now ≤ c.2 := by
  rcases hlater : (s.advance ms).find k with _ | entry
  · rw [cell_of_find_none hlater, eq_comm, Option.filter_eq_none_iff]
    rintro ⟨n, e⟩ hcell hle
    obtain ⟨v, hf⟩ := find_of_cell hcell
    have hd := (Store.find_live hf).1
    have hgone : (s.advance ms).find k = some ⟨.str v, some e⟩ := by
      simp only [Store.find, Option.filter_eq_some_iff]
      exact ⟨hd, hle⟩
    rw [hlater] at hgone
    cases hgone
  · have hnow := Store.find_of_advance hlater
    have hcell : cell (s.advance ms) k = cell s k := cell_congr (hlater.trans hnow.symm)
    rcases hc : cell s k with _ | ⟨n, e⟩
    · rw [hcell, hc, Option.filter_none]
    · have hle := cell_live (hcell.trans hc)
      rw [hcell, hc, Option.filter_some, if_pos (decide_eq_true hle)]

/-- The entry of a counter after one more hit. -/
def bumpEntry (site : Site) (s : Store Key) (k : Key) : Entry :=
  let b := (cell s k).bump site.config.width s.now
  counterEntry b.1 b.2

/-- An admission counts once under each of its three keys and touches no other key but
the state. -/
theorem find_admitted (site : Site) (s : Store Key) (source credential slot token : Bytes)
    (hk : k ≠ .admissionState) :
    (admitted site s source credential slot token).find k =
      if k = .syncGlobal ∨ k = .syncSource source ∨ k = .syncCredential credential then
        some (bumpEntry site s k)
      else s.find k := by
  simp only [admitted, withFields_find_ne _ _ hk]
  by_cases hc : k = .syncCredential credential
  · subst hc
    simp [bumped_find_self, cell_bumped_ne, bumpEntry]
  by_cases hs : k = .syncSource source
  · subst hs
    simp [bumped_find_ne, bumped_find_self, cell_bumped_ne, bumpEntry]
  by_cases hg : k = .syncGlobal
  · subst hg
    simp [bumped_find_ne, bumped_find_self, bumpEntry]
  simp [bumped_find_ne, hc, hs, hg]

theorem AcquireOutcome.find {source credential : Bytes} {token : Token}
    {r : Except Error Reply × Store Key} (h : AcquireOutcome site s source credential token.val r)
    (hk : k ≠ .admissionState) :
    r.2.find k = if counts site s k (.acquire source credential token) r.1 then
      some (bumpEntry site s k) else s.find k := by
  cases h with
  | saturated retry hg => cases k <;> simp [counts, hg]
  | limited retry hg =>
    cases k with
    | syncGlobal => simp [counts, hg, bumped_find_self, bumpEntry]
    | admissionState => exact absurd rfl hk
    | _ => simp [counts, bumped_find_ne]
  | granted i hg hsrc hcred hi hfree =>
    rw [find_admitted site s _ _ _ _ hk]
    cases k <;> simp [counts, hg]

theorem AcquireOutcome.count_lt {source credential : Bytes} {token : Token}
    {r : Except Error Reply × Store Key} (h : AcquireOutcome site s source credential token.val r)
    (hk : site.config.limitOf k = some limit)
    (hc : counts site s k (.acquire source credential token) r.1 = true) : count s k < limit := by
  rcases limitOf_cases hk with ⟨rfl, rfl⟩ | ⟨mac, rfl, rfl⟩ | ⟨mac, rfl, rfl⟩
  · cases h <;> simpa [counts] using hc
  · cases h with
    | granted i hg hsrc hcred hi hfree =>
      obtain rfl : mac = source := by simpa [counts] using hc
      exact hsrc
    | _ => simp [counts] at hc
  · cases h with
    | granted i hg hsrc hcred hi hfree =>
      obtain rfl : mac = credential := by simpa [counts] using hc
      exact hcred
    | _ => simp [counts] at hc

theorem counts_error (site : Site) (s : Store Key) (k : Key) (call : Call) (e : Error) :
    counts site s k call (.error e) = false := by
  cases call <;> rfl

theorem counts_of_not_granted {call : Call} {r : Except Error Reply}
    (hr : ∀ slot, r ≠ .ok (.granted slot)) (hk : k ≠ .syncGlobal) :
    counts site s k call r = false := by
  cases call with
  | acquire source credential token =>
    rcases r with e | (_ | slot | _)
    · rfl
    · cases k <;> first | rfl | exact absurd rfl hk
    · exact absurd rfl (hr slot)
    · cases k <;> first | rfl | exact absurd rfl hk
  | _ => rfl

theorem Call.run_now (hb : site.config.Bounded) (hs : Sound site s) (call : Call) :
    (call.run site s).2.now = s.now := by
  rcases eval_run site (call.script site) s with ⟨e, -, h⟩ | ⟨-, h⟩ <;> simp only [Call.run, h]
  cases call with
  | acquire source credential token =>
    have hout := acquire_outcome hb hs source credential token.val
    simp only [Call.script]
    generalize (Admission.acquire site source credential token).run s = r at hout ⊢
    cases hout <;> rfl
  | release slot token =>
    rw [Call.script, release_run hb hs]
    split <;> rfl
  | reconcile generation => rw [Call.script, reconcile_run hb hs, withFields_now]
  | check => rw [Call.script, check_run hb hs]
  | empty =>
    rw [Call.script, empty_run hb hs]
    split <;> rfl

/-- What one script evaluation does to every key but the state. -/
theorem Call.find_run (hb : site.config.Bounded) (hs : Sound site s) (call : Call)
    (hk : k ≠ .admissionState) :
    (call.run site s).2.find k = if counts site s k call (call.run site s).1 then
      some (bumpEntry site s k) else s.find k := by
  rcases eval_run site (call.script site) s with ⟨e, -, h⟩ | ⟨-, h⟩ <;> simp only [Call.run, h]
  · simp [counts_error]
  cases call with
  | acquire source credential token => exact (acquire_outcome hb hs source credential token.val).find hk
  | release slot token =>
    rw [Call.script, release_run hb hs]
    split <;> simp [counts, withFields_find_ne _ _ hk]
  | reconcile generation =>
    simp [Call.script, reconcile_run hb hs, counts, withFields_find_ne _ _ hk]
  | check => simp [Call.script, check_run hb hs, counts]
  | empty =>
    rw [Call.script, empty_run hb hs]
    split <;> simp [counts]

theorem Call.cell_run (hb : site.config.Bounded) (hs : Sound site s) (call : Call)
    (hk : k ≠ .admissionState) :
    cell (call.run site s).2 k = if counts site s k call (call.run site s).1 then
      some ((cell s k).bump site.config.width s.now) else cell s k := by
  have hfind := Call.find_run hb hs call hk
  split
  · next hc =>
    rw [if_pos hc] at hfind
    exact cell_of_find hfind
  · next hc =>
    rw [if_neg hc] at hfind
    exact cell_congr hfind

/-- Only acquisitions count, and only below the limit. -/
theorem Call.count_lt (hb : site.config.Bounded) (hs : Sound site s) (call : Call)
    (hk : site.config.limitOf k = some limit)
    (hc : counts site s k call (call.run site s).1 = true) : count s k < limit := by
  rcases eval_run site (call.script site) s with ⟨e, -, h⟩ | ⟨-, h⟩ <;> simp only [Call.run, h] at hc
  · simp [counts_error] at hc
  cases call with
  | acquire source credential token =>
    exact (acquire_outcome hb hs source credential token.val).count_lt hk hc
  | _ => simp [counts] at hc

/-- A granted reply comes from an acquisition that counted under all three keys. -/
theorem Call.granted_counts (hb : site.config.Bounded) (hs : Sound site s) {call : Call}
    {slot : Bytes} (hr : (call.run site s).1 = .ok (.granted slot)) :
    ∃ source credential token, call = .acquire source credential token ∧
      ∀ k, counts site s k call (call.run site s).1 = true ↔
        k = .syncGlobal ∨ k = .syncSource source ∨ k = .syncCredential credential := by
  rw [hr]
  rcases eval_run site (call.script site) s with ⟨e, -, h⟩ | ⟨-, h⟩ <;> simp only [Call.run, h] at hr
  · cases hr
  cases call with
  | acquire source credential token =>
    refine ⟨source, credential, token, rfl, ?_⟩
    have hout := acquire_outcome hb hs source credential token.val
    simp only [Call.script] at hr
    generalize (Admission.acquire site source credential token).run s = r at hout hr
    cases hout with
    | granted i hg hsrc hcred hi hfree => intro k; cases k <;> simp [counts, hg]
    | _ => cases hr
  | release slot token =>
    rw [Call.script, release_run hb hs] at hr
    split at hr <;> cases hr
  | reconcile generation =>
    rw [Call.script, reconcile_run hb hs] at hr
    cases hr
  | check =>
    rw [Call.script, check_run hb hs] at hr
    cases hr
  | empty =>
    rw [Call.script, empty_run hb hs] at hr
    split at hr <;> cases hr

theorem Call.state_run (hb : site.config.Bounded) (hs : Sound site s) (call : Call) :
    ∃ h, (call.run site s).2.find .admissionState = some ⟨.hash h, none⟩ :=
  ⟨_, (Step.sound hb hs (.issue call)).state⟩

theorem counts_limitOf {call : Call} {r : Except Error Reply} (h : counts site s k call r = true) :
    ∃ limit, site.config.limitOf k = some limit := by
  cases call with
  | acquire source credential token =>
    rcases r with e | reply
    · cases h
    · cases k <;> cases reply <;> simp_all [counts, Config.limitOf]
  | _ => cases h

theorem ttl_congr {t : Store Key} {entry entry' : Entry} (hn : t.now = s.now)
    (hs : s.find k = some entry) (ht : t.find k = some entry')
    (he : entry'.expireAt = entry.expireAt) : t.ttl k = s.ttl k := by
  obtain ⟨v, x⟩ := entry
  obtain ⟨v', x'⟩ := entry'
  obtain rfl : x' = x := he
  cases x' <;> simp only [Store.ttl, hs, ht, hn]

/-- No call removes a live key or changes when it expires. -/
theorem Call.expireAt_run (hb : site.config.Bounded) (hs : Sound site s) (call : Call)
    {entry : Entry} (hf : s.find k = some entry) :
    ∃ entry', (call.run site s).2.find k = some entry' ∧ entry'.expireAt = entry.expireAt := by
  by_cases hk : k = .admissionState
  · subst hk
    obtain ⟨h, hh⟩ := Call.state_run hb hs call
    rw [hs.state] at hf
    obtain rfl := Option.some.inj hf
    exact ⟨_, hh, rfl⟩
  · have hfind := Call.find_run hb hs call hk
    split at hfind
    · next hc =>
      obtain ⟨limit, hlimit⟩ := counts_limitOf hc
      rcases (hs.counters k limit hlimit).cases with ⟨hnone, -⟩ | ⟨n, e, hsome, hcell, -⟩
      · rw [hnone] at hf
        cases hf
      · rw [hsome] at hf
        obtain rfl := Option.some.inj hf
        exact ⟨_, hfind, by simp [bumpEntry, hcell, Cell.bump, counterEntry]⟩
    · exact ⟨entry, hfind.trans hf, rfl⟩

end Cells

section Runs
variable {site : Site} {k : Key} {limit : ℕ}

/-- The hits of a counter, with the window that counted each. -/
def hitsOf (site : Site) (k : Key) (events : List Event) : List FixedWindow.Hit :=
  (events.filter (Event.hits site k)).map fun e =>
    ⟨((cell e.before k).bump site.config.width e.before.now).2 - site.config.width, e.before.now⟩

theorem hitsOf_cons (e : Event) (events : List Event) :
    hitsOf site k (e :: events) = if e.hits site k then
      ⟨((cell e.before k).bump site.config.width e.before.now).2 - site.config.width, e.before.now⟩ ::
        hitsOf site k events
      else hitsOf site k events := by
  unfold hitsOf
  by_cases h : e.hits site k = true <;> simp [h]

/-- Along every run a counter agrees with the calls it should have counted. -/
theorem run_tracks (hb : site.config.Bounded) {start : Store Key} (hs : Sound site start)
    (hk : site.config.limitOf k = some limit) (hfresh : cell start k = none) (steps : List Step) :
    Tracks site.config.width limit (run site start steps).now (cell (run site start steps) k)
      (hitsOf site k (trace site start steps)) := by
  induction steps with
  | nil =>
    simp only [run, trace, hfresh]
    exact Tracks.start _ _ _
  | cons step earlier ih =>
    have hsound := run_sound hb hs earlier
    simp only [run, trace, hitsOf_cons]
    cases step with
    | advance ms =>
      simp only [Event.hits, Step.apply, cell_advance]
      exact ih.advance (Nat.le_add_right _ _)
    | issue call =>
      have hcell := Call.cell_run hb hsound call (limitOf_ne_state hk)
      simp only [Event.hits, Step.apply, Call.run_now hb hsound, hcell]
      by_cases hcount : counts site (run site start earlier) k call
          (call.run site (run site start earlier)).1 = true
      · simp only [hcount, if_true]
        exact ih.bump (Call.count_lt hb hsound call hk hcount)
      · simp only [hcount]
        exact ih

theorem exist_iff_cell {s : Store Key} (hs : Sound site s) (hk : site.config.limitOf k = some limit) :
    s.exist k = true ↔ cell s k ≠ none := by
  rcases (hs.counters k limit hk).cases with ⟨hf, hc⟩ | ⟨n, e, hf, hc, -⟩ <;>
    simp [Store.exist, hf, hc]

/-- A live counter holds exactly the number of calls counted since it was created. -/
theorem run_count_since (hb : site.config.Bounded) {start : Store Key} (hs : Sound site start)
    (hk : site.config.limitOf k = some limit) (hfresh : cell start k = none) (steps : List Step)
    {n e : ℕ} (hcell : cell (run site start steps) k = some (n, e)) :
    (sinceCreated k (trace site start steps)).countP (Event.hits site k) = n := by
  induction steps generalizing n e with
  | nil => simp [run, hfresh] at hcell
  | cons step earlier ih =>
    have hsound := run_sound hb hs earlier
    have hexist := exist_iff_cell hsound hk
    simp only [run] at hcell
    simp only [trace, sinceCreated]
    cases step with
    | advance ms =>
      simp only [Step.apply, cell_advance] at hcell
      have hbefore := (Option.filter_eq_some_iff.mp hcell).1
      rw [if_pos (hexist.mpr (by simp [hbefore])), List.countP_cons, ih hbefore]
      simp [Event.hits]
    | issue call =>
      have hstep := Call.cell_run hb hsound call (limitOf_ne_state hk)
      rw [Step.apply, hstep] at hcell
      by_cases hlive : (run site start earlier).exist k = true
      · obtain ⟨⟨m, x⟩, hbefore⟩ := Option.ne_none_iff_exists'.mp (hexist.mp hlive)
        rw [if_pos hlive, List.countP_cons, ih hbefore]
        simp only [Event.hits]
        split at hcell
        · next hcount =>
          rw [hbefore] at hcell
          simp only [hcount, if_true]
          exact (Prod.mk.inj (Option.some.inj hcell)).1
        · next hcount =>
          rw [hbefore] at hcell
          simp only [hcount]
          exact (Prod.mk.inj (Option.some.inj hcell)).1
      · -- the key was absent, so this very call created it
        have hbefore : cell (run site start earlier) k = none := by
          by_contra hne
          exact hlive (hexist.mpr hne)
        rw [if_neg hlive, List.countP_singleton]
        simp only [Event.hits]
        split at hcell
        · next hcount =>
          rw [hbefore] at hcell
          simp only [hcount, if_true]
          exact (Prod.mk.inj (Option.some.inj hcell)).1
        · rw [hbefore] at hcell
          cases hcell

/-- A call in one interval of one window, whichever counter it counts under. -/
theorem countP_within_le (hb : site.config.Bounded) {start : Store Key} (hs : Sound site start)
    (hk : site.config.limitOf k = some limit) (hfresh : cell start k = none) (steps : List Step)
    (a : ℕ) :
    (trace site start steps).countP (fun e => e.hits site k && e.within site.config.width a) ≤
      2 * limit := by
  have hle := (run_tracks hb hs hk hfresh steps).toLog.countP_interval_le a
  rw [hitsOf, List.countP_map, List.countP_filter] at hle
  refine le_trans (le_of_eq (List.countP_congr fun e _ => ?_)) hle
  simp [Event.within, and_comm]

theorem trace_sound (hb : site.config.Bounded) {start : Store Key} (hs : Sound site start)
    (steps : List Step) : ∀ e ∈ trace site start steps, Sound site e.before := by
  induction steps with
  | nil => simp [trace]
  | cons step earlier ih =>
    simp only [trace, List.mem_cons, forall_eq_or_imp]
    exact ⟨run_sound hb hs earlier, ih⟩

theorem admits_hits_global (hb : site.config.Bounded) {e : Event} (hs : Sound site e.before)
    (ha : e.admits site = true) : e.hits site .syncGlobal = true := by
  obtain ⟨before, step⟩ := e
  cases step with
  | advance ms => cases ha
  | issue call =>
    simp only [Event.admits] at ha
    split at ha
    · next slot hr =>
      obtain ⟨source, credential, token, -, hcounts⟩ := Call.granted_counts hb hs hr
      exact (hcounts .syncGlobal).mpr (Or.inl rfl)
    · cases ha

theorem freshStore_cell (site : Site) (now delay : ℕ) (generation : Generation)
    (hk : site.config.limitOf k = some limit) :
    cell (freshStore site now delay generation) k = none := by
  have hmarker : k ≠ .marker := by
    rintro rfl
    cases hk
  rw [freshStore_eq, cell_withFields _ _ (limitOf_ne_state hk)]
  exact cell_of_find_none (Store.write_find_ne _ _ hmarker)

end Runs

/-- The three rate limits over every run: what a live counter holds, that a refused call
leaves identity keys alone, that no call moves an expiry, and what one window's worth
of time can admit. -/
theorem rate_limits {network : String → Except String ℕ} {environ : Environ} {site : Site}
    (hcfg : configured network environ = .ok site.config) (now delay : ℕ) (generation : Generation)
    (steps : List Step) :
    let start := freshStore site now delay generation
    let s := run site start steps
    let events := trace site start steps
    (∀ k limit, site.config.limitOf k = some limit → ∀ entry, s.find k = some entry →
      ∃ n, entry.value = .str (Nat.toDigits 10 n) ∧ n ≤ limit ∧
        (sinceCreated k events).countP (Event.hits site k) = n) ∧
    (∀ call : Call, (∀ slot, (call.run site s).1 ≠ .ok (.granted slot)) → ∀ mac,
      (call.run site s).2.find (.syncSource mac) = s.find (.syncSource mac) ∧
      (call.run site s).2.find (.syncCredential mac) = s.find (.syncCredential mac)) ∧
    (∀ (call : Call) k, s.exist k = true →
      (call.run site s).2.exist k = true ∧ (call.run site s).2.ttl k = s.ttl k) ∧
    (∀ k limit, site.config.limitOf k = some limit → ∀ a,
      events.countP (fun e => e.hits site k && e.within site.config.width a) ≤ 2 * limit) ∧
    ∀ a, events.countP (fun e => e.admits site && e.within site.config.width a) ≤
      2 * site.config.globalMax := by
  intro start s events
  have hb := configured_bounded hcfg
  have hstart : Sound site start := freshStore_sound site now delay generation
  have hs : Sound site s := run_sound hb hstart steps
  refine ⟨?_, ?_, ?_, ?_, ?_⟩
  · intro k limit hk entry hentry
    obtain ⟨n, e, rfl, -, hn, -⟩ := hs.counters k limit hk entry hentry
    exact ⟨n, rfl, hn, run_count_since hb hstart hk (freshStore_cell _ _ _ _ hk) steps
      (cell_of_find hentry)⟩
  · intro call hrejected mac
    rw [Call.find_run hb hs call (by simp), Call.find_run hb hs call (by simp),
      counts_of_not_granted hrejected (by simp), counts_of_not_granted hrejected (by simp)]
    simp
  · intro call k hlive
    obtain ⟨entry, hentry⟩ := Option.isSome_iff_exists.mp hlive
    obtain ⟨entry', hafter, hexpire⟩ := Call.expireAt_run hb hs call hentry
    exact ⟨by simp [Store.exist, hafter],
      ttl_congr (Call.run_now hb hs call) hentry hafter hexpire⟩
  · intro k limit hk a
    exact countP_within_le hb hstart hk (freshStore_cell _ _ _ _ hk) steps a
  · intro a
    refine le_trans ?_ (countP_within_le hb hstart (k := .syncGlobal) rfl
      (freshStore_cell _ _ _ _ rfl) steps a)
    apply List.countP_mono_left
    intro e he hp
    rw [Bool.and_eq_true] at hp ⊢
    exact ⟨admits_hits_global hb (trace_sound hb hstart steps e he) hp.1, hp.2⟩

theorem rate_limits_sample :
    configured (fun _ => .ok 32) (fun _ => none) = .ok sampleSite.config ∧
    (trace sampleSite (freshStore sampleSite 5000 0 sampleGeneration) sampleSteps).countP
      (fun e => e.hits sampleSite (.syncSource "s".toList) && e.within 60000 5000) ≤ 2 * 60 :=
  ⟨by rfl, (@rate_limits (fun _ => .ok 32) (fun _ => none) sampleSite (by rfl) 5000 0
    sampleGeneration sampleSteps).2.2.2.1
      (.syncSource "s".toList) 60 rfl 5000⟩

section Cardinality
variable {site : Site}

def identityKey : Key → Bool
  | .syncSource _ | .syncCredential _ => true
  | _ => false

/-- The two identity keys an acquisition may create. -/
def Event.identities (e : Event) : List Key :=
  match e.step with
  | .issue (.acquire source credential _) => [.syncSource source, .syncCredential credential]
  | _ => []

theorem Event.identities_length (e : Event) : e.identities.length ≤ 2 := by
  unfold Event.identities
  split <;> simp

/-- Counting under an identity key means having passed the global gate as that identity. -/
theorem identity_hit (hb : site.config.Bounded) {e : Event} (hs : Sound site e.before) {k : Key}
    (hk : identityKey k = true) (hh : e.hits site k = true) :
    k ∈ e.identities ∧ e.hits site .syncGlobal = true := by
  obtain ⟨before, step⟩ := e
  cases step with
  | advance ms => cases hh
  | issue call =>
    have hne : k ≠ .syncGlobal := by
      rintro rfl
      cases hk
    simp only [Event.hits] at hh ⊢
    by_cases hr : ∃ slot, (call.run site before).1 = .ok (.granted slot)
    · obtain ⟨slot, hr⟩ := hr
      obtain ⟨source, credential, token, rfl, hcounts⟩ := Call.granted_counts hb hs hr
      refine ⟨?_, (hcounts .syncGlobal).mpr (Or.inl rfl)⟩
      rcases (hcounts k).mp hh with rfl | rfl | rfl
      · exact absurd rfl hne
      · simp [Event.identities]
      · simp [Event.identities]
    · push Not at hr
      rw [counts_of_not_granted hr hne] at hh
      cases hh

theorem identityKey_limitOf {k : Key} (c : Config) (hk : identityKey k = true) :
    ∃ limit, c.limitOf k = some limit := by
  cases k <;> cases hk
  · exact ⟨_, rfl⟩
  · exact ⟨_, rfl⟩

/-- An identity key appears only with a counted acquisition, and for one window. -/
theorem identity_created (hb : site.config.Bounded) {e : Event} (hs : Sound site e.before) {k : Key}
    (hk : identityKey k = true) (hbefore : e.before.exist k = false)
    (hafter : (e.after site).exist k = true) :
    e.hits site .syncGlobal = true ∧ k ∈ e.identities ∧
      ∃ v, (e.after site).find k = some ⟨v, some (e.before.now + site.config.width)⟩ := by
  have hnone : e.before.find k = none := by simpa [Store.exist] using hbefore
  obtain ⟨entry, hentry⟩ := Option.isSome_iff_exists.mp hafter
  obtain ⟨limit, hlimit⟩ := identityKey_limitOf site.config hk
  obtain ⟨before, step⟩ := e
  cases step with
  | advance ms =>
    rw [Store.find_of_advance hentry] at hnone
    cases hnone
  | issue call =>
    simp only [Event.after, Step.apply] at hs hnone hentry ⊢
    have hfind := Call.find_run hb hs call (limitOf_ne_state hlimit)
    split at hfind
    · next hc =>
      obtain ⟨hid, hg⟩ := identity_hit (e := ⟨before, .issue call⟩) hb hs hk hc
      have hnew : bumpEntry site before k = counterEntry 1 (before.now + site.config.width) := by
        simp only [bumpEntry, cell_of_find_none hnone, Cell.bump]
      exact ⟨hg, hid, _, hfind.trans (congrArg some hnew)⟩
    · rw [hfind, hnone] at hentry
      cases hentry

/-- A live identity key was counted by a call of the last window that passed the global gate. -/
theorem live_identity_hit (hb : site.config.Bounded) {start : Store Key} (hs : Sound site start)
    (steps : List Step) {k : Key} (hk : identityKey k = true) (hfresh : cell start k = none)
    (hlive : (run site start steps).exist k = true) :
    ∃ e ∈ trace site start steps, k ∈ e.identities ∧ e.hits site .syncGlobal = true ∧
      e.within site.config.width ((run site start steps).now - site.config.width) = true := by
  obtain ⟨limit, hlimit⟩ := identityKey_limitOf site.config hk
  have hsound := run_sound hb hs steps
  have htracks := run_tracks hb hs hlimit hfresh steps
  rcases (hsound.counters k limit hlimit).cases with ⟨hnone, -⟩ | ⟨n, x, -, hcell, hn, -⟩
  · simp [Store.exist, hnone] at hlive
  obtain ⟨hlo, b, rfl, -, -, hcount, -⟩ := htracks.live n x hcell
  obtain ⟨h, hmem, hbirth⟩ := List.countP_pos_iff.mp (show 0 < _ by rw [hcount]; exact hn)
  have hwithin := htracks.within h hmem
  have hpast := htracks.past h hmem
  obtain ⟨e, he, rfl⟩ := List.mem_map.mp hmem
  obtain ⟨hetrace, hehits⟩ := List.mem_filter.mp he
  obtain ⟨hmem', hglobal⟩ := identity_hit hb (trace_sound hb hs steps e hetrace) hk hehits
  refine ⟨e, hetrace, hmem', hglobal, ?_⟩
  simp only [decide_eq_true_eq] at hbirth
  simp only [Event.within, Bool.and_eq_true, decide_eq_true_eq]
  simp only at hwithin hpast
  omega

end Cardinality

/-- However many identities call, at most `4 * globalMax` identity keys are alive: each was
created by one of the last window's calls past the global gate, at most two per call,
with one window to live. -/
theorem identity_keys_bounded {network : String → Except String ℕ} {environ : Environ} {site : Site}
    (hcfg : configured network environ = .ok site.config) (now delay : ℕ) (generation : Generation)
    (steps : List Step) :
    let start := freshStore site now delay generation
    let s := run site start steps
    {k | identityKey k = true ∧ s.exist k = true}.encard ≤ 4 * site.config.globalMax ∧
    ∀ e ∈ trace site start steps, e.identities.length ≤ 2 ∧
      ∀ k, identityKey k = true → e.before.exist k = false → (e.after site).exist k = true →
        e.hits site .syncGlobal = true ∧ k ∈ e.identities ∧
        ∃ v, (e.after site).find k = some ⟨v, some (e.before.now + site.config.width)⟩ := by
  intro start s
  have hb := configured_bounded hcfg
  have hstart : Sound site start := freshStore_sound site now delay generation
  refine ⟨?_, ?_⟩
  · let recent := (trace site start steps).filter fun e =>
      e.hits site .syncGlobal && e.within site.config.width (s.now - site.config.width)
    have hrecent : recent.length ≤ 2 * site.config.globalMax := by
      rw [← List.countP_eq_length_filter]
      exact countP_within_le hb hstart rfl (freshStore_cell _ _ _ _ rfl) steps _
    have hkeys : (recent.flatMap Event.identities).length ≤ 2 * recent.length := by
      rw [List.length_flatMap, mul_comm]
      simpa using List.sum_le_card_nsmul (recent.map fun e => e.identities.length) 2
        (by simpa using fun e _ => e.identities_length)
    have hsub : {k | identityKey k = true ∧ s.exist k = true} ⊆
        ((recent.flatMap Event.identities).toFinset : Set Key) := by
      rintro k ⟨hk, hlive⟩
      obtain ⟨limit, hlimit⟩ := identityKey_limitOf site.config hk
      obtain ⟨e, he, hid, hg, hw⟩ := live_identity_hit hb hstart steps hk
        (freshStore_cell _ _ _ _ hlimit) hlive
      simp only [Finset.mem_coe, List.mem_toFinset, List.mem_flatMap]
      exact ⟨e, List.mem_filter.mpr ⟨he, Bool.and_eq_true_iff.mpr ⟨hg, hw⟩⟩, hid⟩
    have hcard := List.toFinset_card_le (recent.flatMap Event.identities)
    calc {k | identityKey k = true ∧ s.exist k = true}.encard
        ≤ ((recent.flatMap Event.identities).toFinset : Set Key).encard := Set.encard_mono hsub
      _ = (recent.flatMap Event.identities).toFinset.card := Set.encard_coe_eq_coe_finsetCard _
      _ ≤ (4 * site.config.globalMax : ℕ) := by exact_mod_cast (by omega)
      _ = 4 * site.config.globalMax := by push_cast; rfl
  · intro e he
    have hs := trace_sound hb hstart steps e he
    exact ⟨e.identities_length, fun k hk hbefore hafter => identity_created hb hs hk hbefore hafter⟩

theorem identity_keys_bounded_sample :
    configured (fun _ => .ok 32) (fun _ => none) = .ok sampleSite.config ∧
    {k | identityKey k = true ∧ (run sampleSite (freshStore sampleSite 5000 0 sampleGeneration)
      sampleSteps).exist k = true}.encard ≤ 4 * sampleSite.config.globalMax :=
  ⟨by rfl, (@identity_keys_bounded (fun _ => .ok 32) (fun _ => none) sampleSite (by rfl) 5000 0
    sampleGeneration sampleSteps).1⟩

end Admission
