import AzdSanta.Operator.GateSteps

/-! The row lock: who holds it, and what its holder knows. The knowledge is a parameter, so
that each property states only what it needs. -/
namespace Operator
open Redis

/-- Between the decision and the commit. -/
def Request.busy (r : Request) : Bool :=
  match r.phase with
  | .inner | .viewed _ | .responded _ => true
  | _ => false

/-- Between the decision and the second factor read. -/
def Request.running (r : Request) : Bool :=
  match r.phase with
  | .inner | .viewed _ => true
  | _ => false

/-- `H r committed working` is kept by a lock holder `r` under the allowed actions. -/
structure HoldRule (p : Primitives) (allowed : GateAction → Bool)
    (H : Request → List Device → List Device → Prop) : Prop where
  devices : ∀ user ds, allowed (.setDevices user ds) = false
  busy : ∀ r c w, H r c w → r.busy
  decided : ∀ (r : Request) (now : ℕ) (u : Account) (fs : List Bytes), r.locked →
    H (r.decided fs (decision p now r.view r.post r.copy u)) u.devices u.devices
  changed : ∀ (r : Request) c w i change status, H r c w → r.phase = .inner →
    allowed (.inner i change status) →
    H { r with phase := .viewed status } c (change.apply r.view w)
  responded : ∀ (r q : Request) c w status flush, H r c w → r.phase = .viewed status →
    q.phase = .responded flush → q.verified = r.verified → H q c w

/-- Every row lock belongs to a request of that user which read the committed factors. Only
requests that lock wait for one, and they hold it while they run. -/
structure GateState.Locked (p : Primitives) (H : Request → List Device → List Device → Prop)
    (σ : GateState) : Prop where
  holder : ∀ k i working, σ.locks k = some (i, working) → ∃ r, σ.requests[i]? = some r ∧
    r.user = k ∧ r.before = σ.factorsOf p k ∧ H r (σ.accounts k).devices working
  waiting : ∀ r ∈ σ.requests, r.phase = .waiting → r.locked
  held : ∀ i r, σ.requests[i]? = some r → r.locked → r.running → ∃ w, σ.locks r.user = some (i, w)

section Locks
variable {p : Primitives} {H : Request → List Device → List Device → Prop}
  {allowed : GateAction → Bool} {σ τ : GateState} {r : Request} {k i : ℕ}

theorem holder_unique {u : ℕ} {w : List Device} (hlock : σ.locks u = some (i, w)) (j : ℕ)
    (w' : List Device) (hj : σ.locks u = some (j, w')) : j = i := by
  rw [hlock, Option.some.injEq, Prod.mk.injEq] at hj
  exact hj.1.symm

/-- Where only `i` can hold the lock of `u`, changing that lock takes none from another request. -/
theorem lock_kept {u j : ℕ} {lock : Option (ℕ × List Device)} {w : List Device}
    (hmine : ∀ j w, σ.locks u = some (j, w) → j = i) (hne : j ≠ i) (hk : σ.locks k = some (j, w)) :
    Function.update σ.locks u lock k = some (j, w) := by
  rw [Function.update_of_ne, hk]
  rintro rfl
  exact hne (hmine j w hk)

theorem GateState.Locked.append (h : σ.Locked p H) {q : Request} (hlocks : τ.locks = σ.locks)
    (hrequests : τ.requests = σ.requests ++ [q]) (hacc : τ.accounts = σ.accounts)
    (hwaiting : q.phase ≠ .waiting) (hrunning : q.running = false) : τ.Locked p H := by
  have hmem {r : Request} (hr : r ∈ τ.requests) : r ∈ σ.requests ∨ r = q := by
    rw [hrequests] at hr
    exact (List.mem_append.mp hr).imp_right List.mem_singleton.mp
  refine ⟨fun k i w hk => ?_, fun r hr hw => ?_, fun i r hi hlocked hrun => ?_⟩
  · rw [hlocks] at hk
    obtain ⟨r, hi, huser, hbefore, hH⟩ := h.holder k i w hk
    refine ⟨r, ?_, huser, ?_, ?_⟩
    · rw [hrequests, List.getElem?_append_left (List.getElem?_eq_some_iff.mp hi).1]
      exact hi
    · simpa only [GateState.factorsOf, GateState.account, hacc] using hbefore
    · rwa [hacc]
  · rcases hmem hr with hold | rfl
    · exact h.waiting r hold hw
    · exact absurd hw hwaiting
  · rw [hlocks]
    rcases Nat.lt_or_ge i σ.requests.length with hlt | hge
    · rw [hrequests, List.getElem?_append_left hlt] at hi
      exact h.held i r hi hlocked hrun
    · rw [hrequests, List.getElem?_append_right hge] at hi
      obtain rfl := List.mem_singleton.mp (List.mem_of_getElem? hi)
      rw [hrunning] at hrun
      cases hrun

/-- Request `i` is replaced; its lock, if any, and the lock of its user are accounted for. -/
theorem GateState.Locked.replace (h : σ.Locked p H) {q : Request} (hi : σ.requests[i]? = some r)
    (hrequests : τ.requests = σ.requests.set i q)
    (hlocks : ∀ k j w, τ.locks k = some (j, w) → (j ≠ i ∧ σ.locks k = some (j, w)) ∨
      (j = i ∧ q.user = k ∧ q.before = τ.factorsOf p k ∧ H q (τ.accounts k).devices w))
    (hdevices : ∀ k j w, j ≠ i → τ.locks k = some (j, w) →
      (τ.accounts k).devices = (σ.accounts k).devices)
    (hkept : ∀ k j w, j ≠ i → σ.locks k = some (j, w) → τ.locks k = some (j, w))
    (hwaiting : q.phase = .waiting → q.locked)
    (hheld : q.locked → q.running → ∃ w, τ.locks q.user = some (i, w)) : τ.Locked p H where
  holder k j w hk := by
    rw [hrequests]
    rcases hlocks k j w hk with ⟨hne, hold⟩ | ⟨rfl, huser, hbefore, hH⟩
    · obtain ⟨r, hj, huser, hbefore, hH⟩ := h.holder k j w hold
      have hdev := hdevices k j w hne hk
      refine ⟨r, by rwa [List.getElem?_set_ne hne.symm], huser, ?_, hdev ▸ hH⟩
      rw [hbefore]
      exact congrArg (factors p) hdev.symm
    · exact ⟨q, List.getElem?_set_self (List.getElem?_eq_some_iff.mp hi).1, huser, hbefore, hH⟩
  waiting r hr hw := by
    rw [hrequests] at hr
    rcases List.mem_or_eq_of_mem_set hr with hold | rfl
    · exact h.waiting r hold hw
    · exact hwaiting hw
  held j r hj hlocked hrun := by
    rw [hrequests] at hj
    by_cases hij : i = j
    · subst hij
      rw [List.getElem?_set_self (List.getElem?_eq_some_iff.mp hi).1, Option.some.injEq] at hj
      subst hj
      exact hheld hlocked hrun
    · rw [List.getElem?_set_ne hij] at hj
      obtain ⟨w, hw⟩ := h.held j r hj hlocked hrun
      exact ⟨w, hkept _ j w (Ne.symm hij) hw⟩

/-- A request that holds no lock moves on. -/
theorem GateState.Locked.setRequest (h : σ.Locked p H) {q : Request} (hi : σ.requests[i]? = some r)
    (hfree : ∀ k w, σ.locks k ≠ some (i, w)) (hlocks : τ.locks = σ.locks)
    (hrequests : τ.requests = σ.requests.set i q) (hacc : τ.accounts = σ.accounts)
    (hwaiting : q.phase = .waiting → q.locked) (hidle : q.locked → q.running = false) :
    τ.Locked p H := by
  refine h.replace hi hrequests (fun k j w hk => Or.inl ⟨?_, hlocks ▸ hk⟩) (fun _ _ _ _ _ => by rw [hacc])
    (fun k j w _ hk => hlocks ▸ hk) hwaiting fun hl hr => ?_
  · rintro rfl
    exact hfree k w (hlocks ▸ hk)
  · rw [hidle hl] at hr
    cases hr

/-- A lock holder is between the decision and the commit. -/
theorem GateState.Locked.not_holder (h : σ.Locked p H) (rule : HoldRule p allowed H)
    (hi : σ.requests[i]? = some r) (hbusy : r.busy = false) (k : ℕ) (w : List Device) :
    σ.locks k ≠ some (i, w) := by
  intro hk
  obtain ⟨r', hi', -, -, hH⟩ := h.holder k i w hk
  obtain rfl := Option.some.inj (hi.symm.trans hi')
  have := rule.busy _ _ _ hH
  rw [hbusy] at this
  cases this

theorem GateState.Locked.free_of_user (h : σ.Locked p H) (hi : σ.requests[i]? = some r)
    (hfree : ∀ w, σ.locks r.user ≠ some (i, w)) (k : ℕ) (w : List Device) :
    σ.locks k ≠ some (i, w) := by
  intro hk
  obtain ⟨r', hi', huser, -, -⟩ := h.holder k i w hk
  obtain rfl := Option.some.inj (hi.symm.trans hi')
  exact hfree w (huser ▸ hk)

/-- A running request that does not hold the lock of its user never locks. -/
theorem GateState.Locked.unlocked (h : σ.Locked p H) (hi : σ.requests[i]? = some r)
    (hrun : r.running) (hfree : ∀ w, σ.locks r.user ≠ some (i, w)) : r.locked = false := by
  by_contra hlocked
  obtain ⟨w, hw⟩ := h.held i r hi (by simpa using hlocked) hrun
  exact hfree w hw

/-- Request `i` holds the lock of its user from now on, or still. -/
theorem GateState.Locked.hold (h : σ.Locked p H) {q : Request} {working : List Device}
    (hi : σ.requests[i]? = some r) (huser : q.user = r.user)
    (hmine : ∀ j w, σ.locks r.user = some (j, w) → j = i)
    (hlocks : τ.locks = Function.update σ.locks r.user (some (i, working)))
    (hrequests : τ.requests = σ.requests.set i q) (hacc : τ.accounts = σ.accounts)
    (hbefore : q.before = σ.factorsOf p r.user) (hH : H q (σ.accounts r.user).devices working)
    (hq : q.phase ≠ .waiting) : τ.Locked p H := by
  have hfactors : τ.factorsOf p r.user = σ.factorsOf p r.user := by
    simp only [GateState.factorsOf, GateState.account, hacc]
  refine h.replace hi hrequests (fun k j w hk => ?_) (fun _ _ _ _ _ => by rw [hacc])
    (fun k j w hne hk => ?_) (fun hw => absurd hw hq) fun _ _ => ⟨working, by simp [hlocks, huser]⟩
  · rw [hlocks] at hk
    by_cases hkr : k = r.user
    · subst hkr
      rw [Function.update_self, Option.some.injEq, Prod.mk.injEq] at hk
      obtain ⟨rfl, rfl⟩ := hk
      exact Or.inr ⟨rfl, huser, hfactors ▸ hbefore, by rwa [hacc]⟩
    · rw [Function.update_of_ne hkr] at hk
      refine Or.inl ⟨?_, hk⟩
      rintro rfl
      obtain ⟨r', hi', hu, -⟩ := h.holder k j w hk
      obtain rfl := Option.some.inj (hi.symm.trans hi')
      exact hkr hu.symm
  · rw [hlocks]
    exact lock_kept hmine hne hk

/-- The lock of `r.user` is given back; the other locks are of other users. -/
theorem GateState.Locked.unlock (h : σ.Locked p H) {q : Request} {working : List Device}
    (hi : σ.requests[i]? = some r) (hlock : σ.locks r.user = some (i, working))
    (hlocks : τ.locks = Function.update σ.locks r.user none)
    (hrequests : τ.requests = σ.requests.set i q)
    (hacc : ∀ k, k ≠ r.user → τ.accounts k = σ.accounts k)
    (hq : q.phase ≠ .waiting) (hidle : q.running = false) : τ.Locked p H := by
  have hother {k j : ℕ} {w : List Device} (hk : τ.locks k = some (j, w)) :
      k ≠ r.user ∧ σ.locks k = some (j, w) := by
    rw [hlocks] at hk
    by_cases hkr : k = r.user
    · subst hkr
      simp at hk
    · rw [Function.update_of_ne hkr] at hk
      exact ⟨hkr, hk⟩
  refine h.replace hi hrequests (fun k j w hk => Or.inl ⟨?_, (hother hk).2⟩)
    (fun k j w _ hk => by rw [hacc k (hother hk).1]) (fun k j w hne hk => ?_)
    (fun hw => absurd hw hq) fun _ hr => ?_
  · rintro rfl
    obtain ⟨r', hi', hu, -⟩ := h.holder k j w (hother hk).2
    obtain rfl := Option.some.inj (hi.symm.trans hi')
    exact (hother hk).1 hu.symm
  · rw [hlocks]
    exact lock_kept (holder_unique hlock) hne hk
  · rw [hidle] at hr
    cases hr

/-- After its view ran, a request moves on with or without the lock. -/
theorem GateState.Locked.respond (h : σ.Locked p H) (rule : HoldRule p allowed H) {q : Request}
    {status : ℕ} {flush : Bool} (hi : σ.requests[i]? = some r) (hphase : r.phase = .viewed status)
    (hflush : q.phase = .responded flush) (huser : q.user = r.user)
    (hbefore : q.before = r.before) (hverified : q.verified = r.verified) :
    (σ.setRequest i q).Locked p H := by
  by_cases hheld : ∃ w, σ.locks r.user = some (i, w)
  · obtain ⟨w, hw⟩ := hheld
    obtain ⟨r', hi', -, hb, hH⟩ := h.holder r.user i w hw
    obtain rfl := Option.some.inj (hi.symm.trans hi')
    have hlocks : (σ.setRequest i q).locks = Function.update σ.locks r.user (some (i, w)) := by
      rw [← hw, Function.update_eq_self]
      rfl
    exact h.hold hi huser (holder_unique hw) hlocks rfl rfl (hbefore.trans hb)
      (rule.responded r q _ _ status flush hH hphase hflush hverified) (by simp [hflush])
  · push Not at hheld
    exact h.setRequest hi (h.free_of_user hi hheld) rfl rfl rfl (by simp [hflush])
      (by simp [Request.running, hflush])

theorem Request.decided_fields (r : Request) (fs : List Bytes) (verdict : Verdict) :
    (r.decided fs verdict).user = r.user ∧ (r.decided fs verdict).before = fs ∧
      (r.decided fs verdict).phase ≠ .waiting ∧ (r.decided fs verdict).locked = r.locked := by
  cases verdict <;> simp [Request.decided, Request.locked]

theorem Request.afterSecond_fields (r : Request) (status : ℕ) (fs : List Bytes) :
    (∃ flush, (r.afterSecond p status fs).phase = .responded flush) ∧
      (r.afterSecond p status fs).user = r.user ∧
      (r.afterSecond p status fs).before = r.before ∧
      (r.afterSecond p status fs).verified = r.verified := by
  simp only [Request.afterSecond]
  split_ifs <;> exact ⟨⟨_, rfl⟩, rfl, rfl, rfl⟩

theorem GateStep.locked {action : GateAction} (hstep : GateStep p σ action τ)
    (rule : HoldRule p allowed H) (hallowed : allowed action) (h : σ.Locked p H) :
    τ.Locked p H := by
  cases hstep with
  | idle => exact h
  | arrives | begins | denies | prepares =>
    exact h.append rfl rfl rfl (by simp [Request.begin]) rfl
  | @early i storeReady r verdict hi hphase hearly =>
    refine h.setRequest hi (h.not_holder rule hi (by simp [Request.busy, hphase])) rfl rfl rfl
      (fun hw => absurd hw (r.decided_fields ..).2.2.1) fun hl => ?_
    cases verdict with
    | respond status flush => rfl
    | handler verified enrolling =>
      -- Only logout is handed on here, and logout never locks.
      simp [Request.decided, Request.locked, earlyVerdict_handler hearly, View.locks] at hl
  | waits hi hphase hearly hlocked =>
    exact h.setRequest hi (h.not_holder rule hi (by simp [Request.busy, hphase])) rfl rfl rfl
      (fun _ => hlocked) fun _ => rfl
  | @decides i storeReady r hi hphase hearly hlocked =>
    refine h.setRequest hi (h.not_holder rule hi (by simp [Request.busy, hphase])) rfl rfl rfl
      (fun hw => absurd hw (r.decided_fields ..).2.2.1) fun hl => ?_
    rw [(r.decided_fields ..).2.2.2] at hl
    exact absurd hl hlocked
  | @acquires i r hi hphase hfree =>
    obtain ⟨huser, hbefore, hnw, -⟩ := r.decided_fields (σ.factorsOf p r.user)
      (decision p σ.now r.view r.post r.copy (σ.account r.user))
    exact h.hold hi huser (by simp [hfree]) rfl rfl rfl hbefore
      (rule.decided r σ.now (σ.account r.user) _ (h.waiting r (List.mem_of_getElem? hi) hphase)) hnw
  | @views i change status r hi hphase hfree =>
    have hunlocked := h.unlocked hi (by simp [Request.running, hphase]) hfree
    refine h.setRequest hi (h.free_of_user hi hfree) rfl rfl rfl (by simp) fun hl => ?_
    rw [show r.locked = true from hl] at hunlocked
    cases hunlocked
  | @changes i change status r working hi hphase hlock =>
    obtain ⟨r', hi', -, hb, hH⟩ := h.holder r.user i working hlock
    obtain rfl := Option.some.inj (hi.symm.trans hi')
    exact h.hold (q := { r with phase := .viewed status }) hi rfl (holder_unique hlock) rfl rfl rfl hb
      (rule.changed r _ _ i change status hH hphase hallowed) (by simp)
  | @rereads i status r hi hphase hreads =>
    obtain ⟨⟨flush, hflush⟩, huser, hbefore, hverified⟩ :=
      r.afterSecond_fields (p := p) status (factors p (σ.devicesSeen i r))
    exact h.respond rule hi hphase hflush huser hbefore hverified
  | leaves flush hi hphase => exact h.respond rule hi hphase rfl rfl rfl rfl
  | closes hi hphase hfree =>
    obtain ⟨q, hq, hrequests⟩ := close_requests σ _ _ _
    exact h.setRequest hi (h.free_of_user hi hfree) (by simp) hrequests (by simp) (by simp [hq])
      (by simp [Request.running, hq])
  | @publishes i r flush working hi hphase hlock =>
    obtain ⟨q, hq, hrequests⟩ := close_requests (σ.published p r working) i r flush
    rw [published_requests] at hrequests
    refine h.unlock hi hlock (by simp) hrequests (fun k hk => ?_) (by simp [hq])
      (by simp [Request.running, hq])
    simp [Function.update_of_ne hk]
  | saves hi hphase =>
    exact h.setRequest hi (h.not_holder rule hi (by simp [Request.busy, hphase])) rfl rfl rfl
      (by simp) fun _ => rfl
  | dies hi hfree =>
    exact h.setRequest hi (h.free_of_user hi hfree) rfl rfl rfl (by simp) fun _ => rfl
  | rollsBack hi hlock => exact h.unlock hi hlock rfl rfl (fun _ _ => rfl) (by simp) rfl
  | accepts hi hphase | refuses hi hphase | completes hi hphase =>
    exact h.setRequest hi (h.not_holder rule hi (by simp [Request.busy, hphase])) rfl rfl rfl
      (by simp) fun _ => rfl
  | @password user authHash usable =>
    have hdev (k : ℕ) : ((σ.setAccount user { σ.account user with
        sessionAuthHash := authHash, hasUsablePassword := usable }).accounts k).devices =
        (σ.accounts k).devices := by
      by_cases hk : k = user
      · subst hk
        simp [GateState.setAccount, GateState.account]
      · simp [GateState.setAccount, Function.update_of_ne hk]
    refine ⟨fun k i w hk => ?_, h.waiting, h.held⟩
    obtain ⟨r, hi, hu, hb, hH⟩ := h.holder k i w hk
    refine ⟨r, hi, hu, ?_, by rw [hdev]; exact hH⟩
    rw [hb]
    exact congrArg (factors p) (hdev k).symm
  | devices => rw [rule.devices] at hallowed; cases hallowed
  | advances => exact ⟨h.holder, h.waiting, h.held⟩

theorem GateState.after_locked (rule : HoldRule p allowed H) (now : ℕ) (accounts : ℕ → Account)
    {actions : List GateAction} (hallowed : ∀ a ∈ actions, allowed a) :
    (GateState.after p (.initial now accounts) actions).Locked p H := by
  induction actions with
  | nil =>
    refine ⟨?_, ?_, ?_⟩ <;> simp [GateState.after, GateState.initial]
  | cons action earlier ih =>
    exact (GateState.step_cases p _ action).locked rule (hallowed action List.mem_cons_self)
      (ih fun a ha => hallowed a (List.mem_cons_of_mem _ ha))

/-- A logged change of the factors of user `k`. -/
def Event.changes (k : ℕ) : Event → Bool
  | .changed _ user _ _ => user = k
  | _ => false

theorem factorsOf_congr (h : (τ.accounts k).devices = (σ.accounts k).devices) :
    τ.factorsOf p k = σ.factorsOf p k :=
  congrArg (factors p) h

/-- Factors change by the commit of their lock holder and by nothing else, and nothing else is
logged as a change. -/
theorem GateStep.factors_kept_or {action : GateAction} (hstep : GateStep p σ action τ)
    (hdevices : ∀ user ds, action ≠ .setDevices user ds) (k : ℕ) :
    (τ.factorsOf p k = σ.factorsOf p k ∧
      τ.log.filter (Event.changes k) = σ.log.filter (Event.changes k)) ∨
    ∃ i r flush w, action = .commit i ∧ σ.requests[i]? = some r ∧ r.phase = .responded flush ∧
      r.user = k ∧ σ.locks k = some (i, w) ∧ factors p w ≠ σ.factorsOf p k ∧
      τ = (σ.published p r w).close i r flush := by
  cases hstep with
  | devices => exact absurd rfl (hdevices _ _)
  | @password user authHash usable =>
    refine Or.inl ⟨factorsOf_congr ?_, rfl⟩
    by_cases hk : k = user
    · subst hk
      simp [GateState.setAccount, GateState.account]
    · simp [GateState.setAccount, Function.update_of_ne hk]
  | begins | accepts | completes => exact Or.inl ⟨rfl, List.filter_cons_of_neg (by simp [Event.changes])⟩
  | closes hi hphase hfree => exact Or.inl ⟨factorsOf_congr (by simp), by simp⟩
  | @publishes i r flush working hi hphase hlock =>
    by_cases hk : r.user = k
    · subst hk
      by_cases hchanged : factors p working = σ.factorsOf p r.user
      · refine Or.inl ⟨?_, by simp [hchanged]⟩
        rw [← hchanged]
        simp [GateState.factorsOf, GateState.account]
      · exact Or.inr ⟨i, r, flush, working, rfl, hi, hphase, rfl, hlock, hchanged, rfl⟩
    · refine Or.inl ⟨factorsOf_congr (by simp [Function.update_of_ne (Ne.symm hk)]), ?_⟩
      simp only [close_log, published_log]
      split
      · exact List.filter_cons_of_neg (by simp [Event.changes, hk])
      · rfl
  | _ => exact Or.inl ⟨rfl, rfl⟩

end Locks
end Operator
