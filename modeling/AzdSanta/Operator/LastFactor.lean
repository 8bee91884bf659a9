import AzdSanta.Operator.Locks

/-! Factor changes under the row lock: the last factor stays, and an enrollment without a
proof succeeds once. -/
namespace Operator
open Redis

/-- The steps that upstream views take: one factor more or one less, nothing behind the gate. -/
def GateAction.upstream : GateAction → Bool
  | .inner _ (.replace _) _ => false
  | .setDevices .. => false
  | _ => true

theorem factors_length (p : Primitives) (ds : List Device) : (factors p ds).length = ds.length := by
  unfold factors
  rw [List.length_insertionSort, List.length_map]

theorem factors_eq_nil {p : Primitives} {ds : List Device} : factors p ds = [] ↔ ds = [] := by
  rw [← List.length_eq_zero_iff, ← List.length_eq_zero_iff, factors_length]

/-- What the transaction of a lock holder may publish over the committed devices. -/
structure Publishable (p : Primitives) (r : Request) (committed working : List Device) : Prop where
  keeps : committed ≠ [] → working ≠ []
  unproved : r.verified = false → factors p working ≠ factors p committed → committed = []

/-- Where a lock holder stands. -/
inductive Request.Holding (p : Primitives) (committed working : List Device) (r : Request) : Prop
  | inner (hphase : r.phase = .inner) (hworking : working = committed)
      (hdelete : r.view.isDelete → 2 ≤ committed.length)
      (hunproved : r.verified = false → committed = [])
  | viewed {status : ℕ} (hphase : r.phase = .viewed status) (hpub : Publishable p r committed working)
  | responded {flush : Bool} (hphase : r.phase = .responded flush)
      (hpub : Publishable p r committed working)

section Locks
variable {p : Primitives} {σ τ : GateState} {r : Request} {k i : ℕ}

theorem publishable_refl (p : Primitives) (r : Request) (ds : List Device) : Publishable p r ds ds :=
  ⟨fun h => h, fun _ h => absurd rfl h⟩

/-- A removal leaves a factor because the gate counted two; an unproved change finds none. -/
theorem publishable_apply {working committed : List Device} {change : Change}
    (h : r.Holding p committed working) (hphase : r.phase = .inner)
    (hchange : ∀ ds, change ≠ .replace ds) (r' : Request) (hv : r'.verified = r.verified) :
    Publishable p r' committed (change.apply r.view working) := by
  cases h with
  | inner _ hworking hdelete hunproved =>
    subst hworking
    refine ⟨fun hne => ?_, fun hr _ => hunproved (hv ▸ hr)⟩
    cases change with
    | keep => exact hne
    | add d => simp [Change.apply]
    | remove d =>
      simp only [Change.apply]
      split
      · next hview =>
        have hlen := hdelete hview
        rw [← List.length_pos_iff]
        have := List.le_length_erase (a := d) (l := working)
        omega
      · exact hne
    | replace ds => exact absurd rfl (hchange ds)
  | viewed hp _ => simp [hphase] at hp
  | responded hp _ => simp [hphase] at hp

/-- The decision under the lock: a deletion saw two factors, and a request without a valid
proof saw none. -/
theorem decided_holding (hlocked : r.locked) {now : ℕ} {u : Account} {fs : List Bytes}
    {verdict : Verdict} (hverdict : decision p now r.view r.post r.copy u = verdict) :
    (r.decided fs verdict).Holding p u.devices u.devices := by
  cases verdict with
  | respond status flush => exact .responded rfl (publishable_refl ..)
  | handler verified enrolling =>
    obtain ⟨-, henroll, hcases, hdelete⟩ := decision_handler hverdict
    simp only [Request.locked, Bool.and_eq_true] at hlocked
    refine .inner rfl rfl (fun hview => ?_) fun hv => ?_
    · have := hdelete hview hlocked.2
      rwa [factors_length] at this
    · rcases hcases with h | ⟨h, -⟩
      · rw [show verified = false from hv] at h
        cases h
      · rw [h] at henroll
        obtain ⟨e, -, hempty, -⟩ := enrollingNow_iff.mp henroll.symm
        exact factors_eq_nil.mp hempty

theorem upstream_rule (p : Primitives) :
    HoldRule p GateAction.upstream fun r c w => r.Holding p c w where
  devices _ _ := rfl
  busy r c w h := by
    cases h with
    | inner hp | viewed hp | responded hp => simp [Request.busy, hp]
  decided r now u fs hlocked := decided_holding hlocked rfl
  changed r c w i change status h hphase hup := by
    have hchange (ds : List Device) : change ≠ .replace ds := by
      rintro rfl
      cases hup
    exact .viewed rfl (publishable_apply h hphase hchange _ rfl)
  responded r q c w status flush h hphase hflush hverified := by
    cases h with
    | inner hp => simp [hphase] at hp
    | viewed _ hpub =>
      exact .responded hflush ⟨hpub.keeps, fun hv => hpub.unproved (hverified ▸ hv)⟩
    | responded hp => simp [hphase] at hp

/-- A published factor change of user `k` by a request without a valid proof. -/
def Event.unproved (k : ℕ) : Event → Bool
  | .changed _ user verified _ => user = k && !verified
  | _ => false

/-- The commit that changes the factors of user `k`. -/
structure Publishes (p : Primitives) (σ τ : GateState) (k : ℕ) (action : GateAction) : Prop where
  changed : τ.factorsOf p k ≠ σ.factorsOf p k
  keeps : σ.factorsOf p k ≠ [] → τ.factorsOf p k ≠ []
  commit : ∃ i r w, action = .commit i ∧ σ.requests[i]? = some r ∧ r.user = k ∧
    σ.locks k = some (i, w) ∧ r.before = σ.factorsOf p k ∧
    (r.verified = false → σ.factorsOf p k = []) ∧
    τ.log = .changed r.session k r.verified r.before :: σ.log

theorem countP_unproved (k : ℕ) (log : List Event) :
    log.countP (Event.unproved k) = (log.filter (Event.changes k)).countP (Event.unproved k) := by
  rw [List.countP_filter]
  refine List.countP_congr fun e _ => ?_
  cases e <;> simp +contextual [Event.unproved, Event.changes]

/-- What a change of factors is, under upstream views. -/
theorem GateStep.publishes_or {action : GateAction} (hstep : GateStep p σ action τ)
    (hup : action.upstream) (h : σ.Locked p fun r c w => r.Holding p c w) (k : ℕ) :
    (τ.factorsOf p k = σ.factorsOf p k ∧
      τ.log.countP (Event.unproved k) = σ.log.countP (Event.unproved k)) ∨
    Publishes p σ τ k action := by
  have hdevices (user : ℕ) (ds : List Device) : action ≠ .setDevices user ds := by
    rintro rfl
    cases hup
  rcases hstep.factors_kept_or hdevices k with
    ⟨hsame, hlog⟩ | ⟨i, r, flush, w, rfl, hi, hphase, rfl, hlock, hchanged, rfl⟩
  · exact Or.inl ⟨hsame, by rw [countP_unproved, hlog, ← countP_unproved]⟩
  · right
    obtain ⟨r', hi', -, hbefore, hhold⟩ := h.holder r.user i w hlock
    obtain rfl := Option.some.inj (hi.symm.trans hi')
    have hafter : ((σ.published p r w).close i r flush).factorsOf p r.user = factors p w := by
      simp [GateState.factorsOf, GateState.account]
    have hpub : Publishable p r (σ.accounts r.user).devices w := by
      cases hhold with
      | inner hp => simp [hphase] at hp
      | viewed hp => simp [hphase] at hp
      | responded _ hpub => exact hpub
    refine ⟨by rw [hafter]; exact hchanged, fun hne => ?_, i, r, w, rfl, hi, rfl, hlock, hbefore,
      fun hv => ?_, by simp [hchanged]⟩
    · rw [hafter, Ne, factors_eq_nil]
      exact hpub.keeps fun hnil => hne (factors_eq_nil.mpr hnil)
    · exact factors_eq_nil.mpr (hpub.unproved hv hchanged)

/-- One step keeps some factor, and an unproved change needs that there was none. -/
theorem GateStep.unproved_le {action : GateAction} (hstep : GateStep p σ action τ)
    (hup : action.upstream) (h : σ.Locked p fun r c w => r.Holding p c w)
    (hcount : σ.log.countP (Event.unproved k) ≤ 1 ∧
      (σ.log.countP (Event.unproved k) ≠ 0 → σ.factorsOf p k ≠ [])) :
    τ.log.countP (Event.unproved k) ≤ 1 ∧
      (τ.log.countP (Event.unproved k) ≠ 0 → τ.factorsOf p k ≠ []) := by
  rcases hstep.publishes_or hup h k with ⟨hsame, hlog⟩ | hpub
  · rw [hsame, hlog]
    exact hcount
  · obtain ⟨i, r, w, -, -, -, -, -, hunproved, hlog⟩ := hpub.commit
    rw [hlog]
    cases hv : r.verified with
    | true =>
      rw [List.countP_cons_of_neg (by simp [Event.unproved])]
      exact ⟨hcount.1, fun hne => hpub.keeps (hcount.2 hne)⟩
    | false =>
      have hempty := hunproved hv
      have hzero : σ.log.countP (Event.unproved k) = 0 := by
        by_contra hne
        exact hcount.2 hne hempty
      rw [List.countP_cons_of_pos (by simp [Event.unproved]), hzero]
      exact ⟨le_rfl, fun _ => hempty ▸ hpub.changed⟩

theorem GateState.after_unproved (now : ℕ) (accounts : ℕ → Account) (k : ℕ)
    {actions : List GateAction} (hup : ∀ a ∈ actions, a.upstream) :
    let σ := GateState.after p (.initial now accounts) actions
    σ.log.countP (Event.unproved k) ≤ 1 ∧
      (σ.log.countP (Event.unproved k) ≠ 0 → σ.factorsOf p k ≠ []) := by
  induction actions with
  | nil => simp [GateState.after, GateState.initial]
  | cons action earlier ih =>
    have hup' : ∀ a ∈ earlier, a.upstream := fun a ha => hup a (List.mem_cons_of_mem _ ha)
    exact (GateState.step_cases p _ action).unproved_le (hup action List.mem_cons_self)
      (GateState.after_locked (upstream_rule p) now accounts hup') (ih hup')

theorem GateState.after_factors_kept (now : ℕ) (accounts : ℕ → Account) (k : ℕ)
    {later earlier : List GateAction} (hup : ∀ a ∈ later ++ earlier, a.upstream)
    (hne : (GateState.after p (.initial now accounts) earlier).factorsOf p k ≠ []) :
    (GateState.after p (.initial now accounts) (later ++ earlier)).factorsOf p k ≠ [] := by
  induction later with
  | nil => exact hne
  | cons action rest ih =>
    have hup' : ∀ a ∈ rest ++ earlier, a.upstream := fun a ha => hup a (List.mem_cons_of_mem _ ha)
    have hstep := GateState.step_cases p
      (GateState.after p (.initial now accounts) (rest ++ earlier)) action
    rcases hstep.publishes_or (hup action List.mem_cons_self)
      (GateState.after_locked (upstream_rule p) now accounts hup') k with ⟨hsame, -⟩ | hpub
    · exact fun hnil => ih hup' (hsame ▸ hnil)
    · exact hpub.keeps (ih hup')

end Locks

/-- Under upstream views that add or remove one factor of their user at a time: factors once
there are never all gone; factors change only by the commit of a request that read them under
the lock, and found none if it had no valid proof; and this happens once at most. -/
theorem last_factor_and_first_enrollment (p : Primitives) (now : ℕ) (accounts : ℕ → Account)
    (actions : List GateAction) (hup : ∀ a ∈ actions, a.upstream) (k : ℕ) :
    let σ := GateState.after p (.initial now accounts) actions
    (∀ earlier, earlier <:+ actions →
      (GateState.after p (.initial now accounts) earlier).factorsOf p k ≠ [] → σ.factorsOf p k ≠ []) ∧
    (∀ action, action.upstream → (σ.step p action).factorsOf p k ≠ σ.factorsOf p k →
      ∃ i r w, action = .commit i ∧ σ.requests[i]? = some r ∧ r.user = k ∧
        σ.locks k = some (i, w) ∧ r.before = σ.factorsOf p k ∧
        (r.verified = false → r.before = [])) ∧
    σ.log.countP (Event.unproved k) ≤ 1 := by
  intro σ
  refine ⟨?_, ?_, (GateState.after_unproved now accounts k hup).1⟩
  · rintro earlier ⟨later, rfl⟩ hne
    exact GateState.after_factors_kept now accounts k hup hne
  · intro action haction hchanged
    rcases (GateState.step_cases p σ action).publishes_or haction
      (GateState.after_locked (upstream_rule p) now accounts hup) k with ⟨hsame, -⟩ | hpub
    · exact absurd hsame hchanged
    · obtain ⟨i, r, w, haction, hi, huser, hlock, hbefore, hunproved, -⟩ := hpub.commit
      exact ⟨i, r, w, haction, hi, huser, hlock, hbefore, fun hv => hbefore.trans (hunproved hv)⟩

/-- A first enrollment of a new account, newest first. -/
def sampleEnrollment : List GateAction :=
  [.commit 1, .second 1, .inner 1 (.add (.totp 1 "s".toList)) 302, .acquire 1, .enter 1 true,
    .arrive 0 .addTotp true, .save 0, .login 0 1 localBackend]

theorem last_factor_and_first_enrollment_sample :
    let accounts := fun _ => { sampleAccount with devices := [] }
    let σ := GateState.after samplePrimitives (.initial 7000 accounts) sampleEnrollment
    (∀ a ∈ sampleEnrollment, a.upstream) ∧ σ.factorsOf samplePrimitives 1 = ["s".toList] ∧
    σ.log.countP (Event.unproved 1) ≤ 1 :=
  ⟨by decide, by decide, (last_factor_and_first_enrollment samplePrimitives 7000
    (fun _ => { sampleAccount with devices := [] }) sampleEnrollment (by decide) 1).2.2⟩

end Operator
