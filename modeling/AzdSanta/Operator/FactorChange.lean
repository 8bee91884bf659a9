import AzdSanta.Operator.Fingerprints

/-! A factor change and the other sessions of its user: their proofs stay outdated until the
next factor login, unless a setup page that is not a POST reads the factors across the change. -/
namespace Operator
open Redis

/-- A setup request that takes no lock had a valid proof at its first factor read and finds
other factors at its second. -/
def GateState.lateSetupRead (p : Primitives) (σ : GateState) : GateAction → Bool
  | .second i =>
    match σ.requests[i]? with
    | some r =>
      match r.phase with
      | .viewed _ =>
        r.view = .addTotp && !r.post && r.verified && factors p (σ.devicesSeen i r) ≠ r.before
      | _ => false
    | none => false
  | _ => false

/-- No step of the run is such a read. -/
def GateState.orderly (p : Primitives) (start : GateState) : List GateAction → Bool
  | [] => true
  | action :: earlier =>
    !(GateState.after p start earlier).lateSetupRead p action && GateState.orderly p start earlier

/-- Factor lists of one user in this run have different digests when they differ. -/
def GateState.CollisionFree (p : Primitives) (start : GateState) (actions : List GateAction) : Prop :=
  ∀ k fs gs, GateState.Seen p start actions k fs → GateState.Seen p start actions k gs →
    factorsDigest p fs = factorsDigest p gs → fs = gs

/-- Session `s` has a proof of user `k` for the factors `fs`, stored or in a request in flight. -/
def GateState.Carries (p : Primitives) (σ : GateState) (s k : ℕ) (fs : List Bytes) : Prop :=
  ∃ proof : Proof, proof.stamp.user = k ∧ proof.factors = factorsDigest p fs ∧
    ((σ.sessions s).proof = some proof ∨
      ∃ r ∈ σ.requests, r.session = s ∧ r.phase ≠ .finished ∧ r.copy.proof = some proof)

/-- `complete_mfa` in session `s`. -/
def Event.completes (s : ℕ) : Event → Bool
  | .completed session _ _ => session = s
  | _ => false

def GateState.completions (σ : GateState) (s : ℕ) : ℕ := σ.log.countP (Event.completes s)

/-- `_proof` of session `s` for the user `k`, as the store is now. -/
def GateState.proved (p : Primitives) (σ : GateState) (s k : ℕ) : Bool :=
  proofValid p σ.now (σ.sessions s) (σ.account k) (σ.factorsOf p k)

/-- Factors are changed by a request of some session of their user. No other session is proved
after that without a new factor login, as long as the factors are not again those that one of
its proofs was for. Only a request that has itself changed the factors refreshes its proof. -/
structure FactorChangeLaw (p : Primitives) (start : GateState) (actions : List GateAction) : Prop where
  others : ∀ later action before k, actions = later ++ action :: before →
    let σ := GateState.after p start before
    (σ.step p action).factorsOf p k ≠ σ.factorsOf p k →
    ∃ i r, action = .commit i ∧ σ.requests[i]? = some r ∧ r.user = k ∧ ∀ s, s ≠ r.session →
      (GateState.after p start actions).completions s = σ.completions s →
      (∀ mid, mid <:+ later → ∀ fs, GateState.Seen p start before k fs → σ.Carries p s k fs →
        (GateState.after p start (mid ++ action :: before)).factorsOf p k ≠ fs) →
      (GateState.after p start actions).proved p s k = false
  own : ∀ action before i r q old new, action :: before <:+ actions →
    let σ := GateState.after p start before
    σ.requests[i]? = some r → (σ.step p action).requests[i]? = some q →
    r.copy.proof = some old → q.copy.proof = some new → new.factors ≠ old.factors →
    action = .complete i ∨
      ∃ w, action = .second i ∧ σ.locks r.user = some (i, w) ∧ factors p w ≠ σ.factorsOf p r.user

/-- What session `s` knows of user `k` is in `Q`; a request of `s` that runs with a valid proof
takes no lock. -/
structure GateState.Stale (s k : ℕ) (Q : Bytes → Prop) (σ : GateState) : Prop where
  session : ∀ proof : Proof, (σ.sessions s).proof = some proof → proof.stamp.user = k → Q proof.factors
  requests : ∀ r ∈ σ.requests, r.session = s → r.phase ≠ .finished →
    ∀ proof : Proof, r.copy.proof = some proof → proof.stamp.user = k → Q proof.factors
  unlocked : ∀ r ∈ σ.requests, r.session = s → r.user = k → r.running → r.verified → r.locked = false

section Law
variable {p : Primitives} {σ τ : GateState} {action : GateAction} {r : Request} {i s k : ℕ}
  {Q : Bytes → Prop}

theorem GateStep.log_suffix (hstep : GateStep p σ action τ) : σ.log <:+ τ.log := by
  cases hstep with
  | begins | accepts | completes => exact List.suffix_cons _ _
  | closes => simp
  | publishes =>
    simp only [close_log, published_log]
    split
    · exact List.suffix_cons _ _
    · exact List.suffix_rfl
  | _ => exact List.suffix_rfl

theorem GateStep.completions_le (hstep : GateStep p σ action τ) (s : ℕ) :
    σ.completions s ≤ τ.completions s :=
  hstep.log_suffix.sublist.countP_le

/-- A refresh without the lock is the late read of a setup request. -/
theorem lateSetupRead_of_unlocked {status : ℕ} (hi : σ.requests[i]? = some r)
    (hphase : r.phase = .viewed status) (hreads : r.readsAgain) (hverified : r.verified)
    (hchanged : factors p (σ.devicesSeen i r) ≠ r.before) (hlocked : r.locked = false) :
    σ.lateSetupRead p (.second i) = true := by
  have hview : r.view = .addTotp := by simpa [Request.readsAgain, hlocked] using hreads
  have hpost : r.post = false := by simpa [Request.locked, hview, View.locks] using hlocked
  simp [GateState.lateSetupRead, hi, hphase, hview, hpost, hverified, hchanged]

theorem GateStep.stale (hstep : GateStep p σ action τ) (howned : σ.Owned)
    (hcurrent : ¬ Q (factorsDigest p (σ.factorsOf p k))) (hlate : σ.lateSetupRead p action = false)
    (hcompletions : τ.completions s = σ.completions s) (h : σ.Stale s k Q) : τ.Stale s k Q where
  session proof hproof := by
    rcases hstep.session_proof hproof with hold | ⟨i, r, -, hi, hphase, hs, hcopy⟩
    · exact h.session proof hold
    · exact h.requests r (List.mem_of_getElem? hi) hs (by simp [hphase]) proof hcopy
  requests q hq hs hunfinished proof hproof huser := by
    obtain ⟨j, hj⟩ := List.mem_iff_getElem?.mp hq
    cases hstep.moves hj with
    | same hj => exact h.requests q (List.mem_of_getElem? hj) hs hunfinished proof hproof huser
    | fresh _ hloaded => exact h.session proof (hs ▸ hloaded proof hproof) huser
    | @moved r hj _ hm =>
      exact h.requests r (List.mem_of_getElem? hj) (hm.session ▸ hs)
        (fun hr => hunfinished (hm.finished hr)) proof (hm.proof proof hproof) huser
    | @refreshed r status old hj haction hphase hreads hverified hchanged hold hnew hsame =>
      obtain rfl := Option.some.inj (hnew.symm.trans hproof)
      have hmem := List.mem_of_getElem? hj
      have hrunning : r.running := by simp [Request.running, hphase]
      have hk : r.user = k := (howned r hmem hrunning hverified old hold).symm.trans huser
      have hlocked := h.unlocked r hmem (hsame.1 ▸ hs) hk hrunning hverified
      rw [haction, lateSetupRead_of_unlocked hj hphase hreads hverified hchanged hlocked] at hlate
      cases hlate
    | @accepted r u device hr _ hphase heq =>
      subst heq
      exact h.requests r (List.mem_of_getElem? hr) hs (by simp [hphase]) proof hproof huser
    | completed _ _ _ _ hsame hlog =>
      simp [GateState.completions, hlog, Event.completes, ← hsame.1, hs] at hcompletions
  unlocked q hq hs hk hrun hv := by
    obtain ⟨j, hj⟩ := List.mem_iff_getElem?.mp hq
    cases hstep.moves hj with
    | same hj => exact h.unlocked q (List.mem_of_getElem? hj) hs hk hrun hv
    | fresh _ _ _ _ hrunning => simp [hrunning] at hrun
    | @moved r hj _ hm =>
      have hmem := List.mem_of_getElem? hj
      rcases hm.running hrun hv with ⟨hrun, hv⟩ | hvalid
      · rw [hm.locked]
        exact h.unlocked r hmem (hm.session ▸ hs) (hm.user ▸ hk) hrun hv
      · -- The gate would need a proof of the factors there are now, which `s` has not.
        obtain ⟨proof, hproof, -, hstamp, -, -, -, hdigest⟩ := proofValid_iff.mp hvalid
        have hr : r.phase ≠ .finished := by
          intro hr
          simp [Request.running, hm.finished hr] at hrun
        have hru : r.user = k := hm.user ▸ hk
        have huser : proof.stamp.user = k := (congrArg Stamp.user hstamp).trans hru
        have hQ := h.requests r hmem (hm.session ▸ hs) hr proof hproof huser
        rw [hdigest, hru] at hQ
        exact absurd hQ hcurrent
    | refreshed _ _ _ _ _ _ _ _ _ hq => simp [Request.running, hq] at hrun
    | accepted _ _ _ hq => simp [Request.running, hq] at hrun
    | completed _ _ _ _ hsame => simp [Request.running, hsame.2] at hrun

theorem GateState.Stale.not_proved (h : σ.Stale s k Q)
    (hcurrent : ¬ Q (factorsDigest p (σ.factorsOf p k))) : σ.proved p s k = false := by
  rw [← Bool.not_eq_true]
  intro hproved
  obtain ⟨proof, hproof, -, hstamp, -, -, -, hdigest⟩ := proofValid_iff.mp hproved
  exact hcurrent (hdigest ▸ h.session proof hproof (congrArg Stamp.user hstamp))

/-- Right after the commit the other sessions know only factors that were seen before. -/
theorem GateStep.stale_of_commit {Seen : ℕ → List Bytes → Prop} {w : List Device}
    (hstep : GateStep p σ (.commit i) τ) (hfp : σ.Fingerprinted p Seen)
    (hlocked : τ.Locked p fun r _ _ => r.busy) (hi : σ.requests[i]? = some r)
    (hlock : σ.locks k = some (i, w)) (hfree : τ.locks k = none) (hs : s ≠ r.session) :
    τ.Stale s k fun d => ∃ fs, Seen k fs ∧ σ.Carries p s k fs ∧ d = factorsDigest p fs where
  session proof hproof huser := by
    rcases hstep.session_proof hproof with hold | ⟨j, q, haction, -⟩
    · obtain ⟨fs, hseen, hdigest⟩ := hfp.sessions s proof hold
      exact ⟨fs, huser ▸ hseen, ⟨proof, huser, hdigest, Or.inl hold⟩, hdigest⟩
    · cases haction
  requests q hq hqs hunfinished proof hproof huser := by
    obtain ⟨j, hj⟩ := List.mem_iff_getElem?.mp hq
    cases hstep.moves hj with
    | same hj =>
      rcases hfp.requests j q proof hj hunfinished hproof with ⟨fs, hseen, hdigest⟩ | hrefreshing
      · exact ⟨fs, huser ▸ hseen, ⟨proof, huser, hdigest,
          Or.inr ⟨q, List.mem_of_getElem? hj, hqs, hunfinished, hproof⟩⟩, hdigest⟩
      · -- Only the request that commits could have refreshed its proof already.
        obtain ⟨flush, w', -, hlock', -⟩ := hrefreshing.holder
        rw [← hrefreshing.user, huser, hlock, Option.some.injEq, Prod.mk.injEq] at hlock'
        rw [← hlock'.1, hi, Option.some.injEq] at hj
        exact absurd (hj ▸ hqs.symm) hs
    | fresh _ hloaded =>
      have hold := hqs ▸ hloaded proof hproof
      obtain ⟨fs, hseen, hdigest⟩ := hfp.sessions s proof hold
      exact ⟨fs, huser ▸ hseen, ⟨proof, huser, hdigest, Or.inl hold⟩, hdigest⟩
    | moved hj haction hm =>
      obtain rfl := Option.some.inj haction
      obtain rfl := Option.some.inj (hi.symm.trans hj)
      exact absurd (hqs.symm.trans hm.session) hs
    | refreshed _ haction => cases haction
    | accepted _ haction => cases haction
    | completed _ haction => cases haction
  unlocked q hq _ hk hrun _ := by
    obtain ⟨j, hj⟩ := List.mem_iff_getElem?.mp hq
    by_contra hq
    obtain ⟨w, hw⟩ := hlocked.held j q hj (by simpa using hq) hrun
    simp [hk, hfree] at hw

theorem GateState.completions_le_after (p : Primitives) (start : GateState) (s : ℕ)
    (later earlier : List GateAction) : (GateState.after p start earlier).completions s ≤
      (GateState.after p start (later ++ earlier)).completions s := by
  induction later with
  | nil => exact le_rfl
  | cons action rest ih => exact ih.trans ((GateState.step_cases p _ action).completions_le s)

theorem GateState.after_stale {now : ℕ} {accounts : ℕ → Account} {later earlier : List GateAction}
    (horderly : GateState.orderly p (.initial now accounts) (later ++ earlier))
    (hcompletions : (GateState.after p (.initial now accounts) (later ++ earlier)).completions s =
      (GateState.after p (.initial now accounts) earlier).completions s)
    (hcurrent : ∀ mid, mid <:+ later → ¬ Q (factorsDigest p
      ((GateState.after p (.initial now accounts) (mid ++ earlier)).factorsOf p k)))
    (h : (GateState.after p (.initial now accounts) earlier).Stale s k Q) :
    (GateState.after p (.initial now accounts) (later ++ earlier)).Stale s k Q := by
  induction later with
  | nil => exact h
  | cons action rest ih =>
    simp only [List.cons_append, GateState.orderly, Bool.and_eq_true, Bool.not_eq_true'] at horderly
    have hstep := GateState.step_cases p
      (GateState.after p (.initial now accounts) (rest ++ earlier)) action
    have hle := hstep.completions_le s
    have hge := GateState.completions_le_after p (.initial now accounts) s rest earlier
    simp only [List.cons_append, GateState.after] at hcompletions ⊢
    refine hstep.stale (GateState.after_owned now accounts _)
      (hcurrent rest (List.suffix_cons action rest)) horderly.1 (by omega) ?_
    exact ih horderly.2 (by omega) fun mid hmid => hcurrent mid (hmid.trans (List.suffix_cons action rest))

theorem GateState.orderly_of_suffix {start : GateState} {actions earlier : List GateAction}
    (h : GateState.orderly p start actions) (hsuffix : earlier <:+ actions) :
    GateState.orderly p start earlier := by
  obtain ⟨later, rfl⟩ := hsuffix
  induction later with
  | nil => exact h
  | cons action rest ih =>
    simp only [List.cons_append, GateState.orderly, Bool.and_eq_true] at h
    exact ih h.2

end Law

/-- In every run without a late setup read, a factor change outdates the proofs of all other
sessions of the user, and only the session that made the change gets a new fingerprint. -/
theorem factor_change_invalidates (p : Primitives) (now : ℕ) (accounts : ℕ → Account)
    (actions : List GateAction) (hgated : ∀ a ∈ actions, a.gated)
    (hdigest : GateState.CollisionFree p (.initial now accounts) actions)
    (horderly : GateState.orderly p (.initial now accounts) actions) :
    FactorChangeLaw p (.initial now accounts) actions where
  others later action before k hactions := by
    intro σ hchanged
    subst hactions
    have hstep := GateState.step_cases p σ action
    have hmem : action ∈ later ++ action :: before := by simp
    have hdevices (user : ℕ) (ds : List Device) : action ≠ .setDevices user ds := by
      rintro rfl
      cases hgated _ hmem
    rcases hstep.factors_kept_or hdevices k with
      ⟨hsame, -⟩ | ⟨i, r, flush, w, rfl, hi, -, hk, hlock, -, hτ⟩
    · exact absurd hsame hchanged
    have hfree : (σ.step p (.commit i)).locks k = none := by simp [hτ, hk]
    refine ⟨i, r, rfl, hi, hk, fun s hs hcompletions hreturn => ?_⟩
    have hgated' : ∀ a ∈ GateAction.commit i :: before, a.gated :=
      fun a ha => hgated a (List.mem_append_right _ ha)
    have hlocked := GateState.after_locked (gated_rule p) now accounts hgated'
    have hbase := hstep.stale_of_commit (GateState.after_fingerprinted now accounts before) hlocked
      hi hlock hfree hs
    -- No factor list of `later` has a digest that session `s` knows.
    have hcurrent : ∀ mid, mid <:+ later → ¬ ∃ fs, GateState.Seen p (.initial now accounts) before k fs ∧
        σ.Carries p s k fs ∧ factorsDigest p ((GateState.after p (.initial now accounts)
          (mid ++ .commit i :: before)).factorsOf p k) = factorsDigest p fs := by
      rintro mid ⟨rest, rfl⟩ ⟨fs, hseen, hcarries, heq⟩
      refine hreturn mid ⟨rest, rfl⟩ fs hseen hcarries (hdigest k _ fs ?_ ?_ heq)
      · exact ⟨_, ⟨rest, by simp⟩, rfl⟩
      · obtain ⟨old, hold, rfl⟩ := hseen
        exact ⟨old, hold.trans ⟨rest ++ mid ++ [.commit i], by simp⟩, rfl⟩
    have hge := GateState.completions_le_after p (.initial now accounts) s later (.commit i :: before)
    have hle := hstep.completions_le s
    have hsame : (GateState.after p (.initial now accounts) (later ++ .commit i :: before)).completions s =
        (GateState.after p (.initial now accounts) (.commit i :: before)).completions s :=
      le_antisymm (hcompletions.trans_le hle) hge
    exact (GateState.after_stale horderly hsame hcurrent hbase).not_proved (hcurrent later List.suffix_rfl)
  own action before i r q old new hsuffix := by
    intro σ hi hq hold hnew hne
    have hbefore : before <:+ actions := (List.suffix_cons action before).trans hsuffix
    have hgated' : ∀ a ∈ before, a.gated := fun a ha => hgated a (hbefore.subset ha)
    have hlocked := GateState.after_locked (gated_rule p) now accounts hgated'
    cases (GateState.step_cases p σ action).moves hq with
    | same hj =>
      obtain rfl := Option.some.inj (hi.symm.trans hj)
      obtain rfl := Option.some.inj (hold.symm.trans hnew)
      exact absurd rfl hne
    | fresh hj => simp [hj] at hi
    | moved hj _ hm =>
      obtain rfl := Option.some.inj (hi.symm.trans hj)
      obtain rfl := Option.some.inj (hold.symm.trans (hm.proof new hnew))
      exact absurd rfl hne
    | @refreshed _ status _ hj haction hphase hreads hverified hchanged =>
      obtain rfl := Option.some.inj (hi.symm.trans hj)
      by_cases hheld : ∃ w, σ.locks r.user = some (i, w)
      · obtain ⟨w, hw⟩ := hheld
        obtain ⟨_, hi', -, hbefore, -⟩ := hlocked.holder r.user i w hw
        obtain rfl := Option.some.inj (hi.symm.trans hi')
        refine Or.inr ⟨w, haction, hw, ?_⟩
        rw [← hbefore]
        simpa [GateState.devicesSeen, hw] using hchanged
      · push Not at hheld
        have hunlocked := hlocked.unlocked hi (by simp [Request.running, hphase]) hheld
        have hlate := GateState.orderly_of_suffix horderly hsuffix
        simp only [GateState.orderly, Bool.and_eq_true, Bool.not_eq_true'] at hlate
        rw [haction, lateSetupRead_of_unlocked hi hphase hreads hverified hchanged hunlocked] at hlate
        cases hlate.1
    | accepted hj _ _ heq =>
      obtain rfl := Option.some.inj (hi.symm.trans hj)
      subst heq
      obtain rfl := Option.some.inj (hold.symm.trans hnew)
      exact absurd rfl hne
    | completed _ haction => exact Or.inl haction

/-- The texts of a list, each closed by a dot and each character marked. -/
def encodeTexts : List Bytes → Bytes
  | [] => []
  | text :: rest => text.flatMap (fun c => ['c', c]) ++ '.' :: encodeTexts rest

theorem encodeText_injective {s t x y : Bytes}
    (h : s.flatMap (fun c => ['c', c]) ++ '.' :: x = t.flatMap (fun c => ['c', c]) ++ '.' :: y) :
    s = t ∧ x = y := by
  induction s generalizing t with
  | nil =>
    cases t with
    | nil => simpa using h
    | cons d t => simp at h
  | cons c s ih =>
    cases t with
    | nil => simp at h
    | cons d t =>
      simp only [List.flatMap_cons, List.cons_append, List.nil_append, List.cons.injEq, true_and] at h
      obtain ⟨rfl, rfl⟩ := ih h.2
      exact ⟨by rw [h.1], rfl⟩

theorem encodeTexts_injective : Function.Injective encodeTexts := by
  intro a
  induction a with
  | nil =>
    intro b h
    cases b with
    | nil => rfl
    | cons t b => simp [encodeTexts] at h
  | cons s a ih =>
    intro b h
    cases b with
    | nil => simp [encodeTexts] at h
    | cons t b =>
      obtain ⟨rfl, hrest⟩ := encodeText_injective h
      rw [ih hrest]

/-- A digest that keeps apart all lists of texts. -/
def textPrimitives : Primitives :=
  let text : Json → Bytes
    | .str s => s
    | .num n => List.replicate n '1'
    | .arr _ => []
  { samplePrimitives with
    digest := fun
      | .arr items => encodeTexts (items.map text)
      | item => text item }

theorem textPrimitives_collisionFree (start : GateState) (actions : List GateAction) :
    GateState.CollisionFree textPrimitives start actions := by
  intro k fs gs _ _ h
  have hdigest (l : List Bytes) : factorsDigest textPrimitives l = encodeTexts l := by
    simp [factorsDigest, textPrimitives, Function.comp_def]
  rw [hdigest, hdigest] at h
  exact encodeTexts_injective h

/-- Sessions 0 and 1 of one user log in with their factor; newest first. -/
def twoLogins : List GateAction :=
  [.save 1, .complete 1, .accept 1 (.totp 1 "s".toList), .prepare 1 1,
    .save 0, .complete 0, .accept 0 (.totp 1 "s".toList), .prepare 0 1]

/-- Session 0 adds a factor. -/
def addFactor (request : ℕ) : List GateAction :=
  [.second request, .inner request (.add (.totp 2 "t".toList)) 302, .acquire request,
    .enter request true, .arrive 0 .addTotp true]

theorem factor_change_invalidates_sample :
    let start := GateState.initial 7000 fun _ => sampleAccount
    let actions := .commit 2 :: addFactor 2 ++ twoLogins
    (GateState.after textPrimitives start twoLogins).proved textPrimitives 1 1 = true ∧
    (GateState.after textPrimitives start actions).proved textPrimitives 1 1 = false ∧
    FactorChangeLaw textPrimitives start actions :=
  ⟨by decide, by decide, factor_change_invalidates textPrimitives 7000 (fun _ => sampleAccount)
    (.commit 2 :: addFactor 2 ++ twoLogins) (by decide) (textPrimitives_collisionFree _ _) (by decide)⟩

/-- Session 1 opens the setup page and passes the gate; then session 0 adds a factor. -/
def beforeChange : List GateAction :=
  addFactor 3 ++ [.inner 2 .keep 200, .enter 2 true, .arrive 1 .addTotp false] ++ twoLogins

/-- The page is answered after the commit, and its session gets the new fingerprint. -/
theorem late_setup_read_refreshes_proof :
    let start := GateState.initial 7000 fun _ => sampleAccount
    let actions := [.save 2, .commit 2, .second 2] ++ .commit 3 :: beforeChange
    (∀ a ∈ actions, a.gated) ∧ GateState.CollisionFree textPrimitives start actions ∧
    (GateState.after textPrimitives start actions).proved textPrimitives 1 1 = true ∧
    ¬ FactorChangeLaw textPrimitives start actions := by
  intro start actions
  have hproved : (GateState.after textPrimitives start actions).proved textPrimitives 1 1 = true := by
    decide +kernel
  refine ⟨by decide, textPrimitives_collisionFree _ _, hproved, fun law => ?_⟩
  obtain ⟨i, r, hcommit, hr, -, hothers⟩ :=
    law.others [.save 2, .commit 2, .second 2] (.commit 3) beforeChange 1 rfl (by decide +kernel)
  obtain rfl := GateAction.commit.inj hcommit
  have hsession : (GateState.after textPrimitives start beforeChange).requests[3]?.map Request.session =
      some 0 := by decide +kernel
  rw [hr, Option.map_some, Option.some.injEq] at hsession
  have hold : ∀ old ∈ beforeChange.tails, ((GateState.after textPrimitives start
      old).factorsOf textPrimitives 1).length = 1 := by decide +kernel
  have hnew : ∀ mid ∈ [GateAction.save 2, .commit 2, .second 2].tails,
      ((GateState.after textPrimitives start
        (mid ++ .commit 3 :: beforeChange)).factorsOf textPrimitives 1).length = 2 := by decide +kernel
  have hfalse := hothers 1 (by simp [hsession]) (by decide +kernel) ?_
  · rw [hproved] at hfalse
    cases hfalse
  · rintro mid hmid fs ⟨old, holder, rfl⟩ -
    intro heq
    have hmid' := hnew mid (List.mem_tails _ _ |>.mpr hmid)
    rw [heq, hold old (List.mem_tails _ _ |>.mpr holder)] at hmid'
    cases hmid'

end Operator
