import AzdSanta.Operator.GateSteps

/-! The session records that the middleware trusts go back to events of the same session. -/
namespace Operator
open Redis

/-- Every record of session `k` stems from a logged event of `k`. A proof may have a newer
fingerprint than the proof it stems from, never a newer issue time. -/
structure Session.Traced (log : List Event) (now k : ℕ) (s : Session) : Prop where
  proof : ∀ proof, s.proof = some proof → ∃ original t,
    .completed k original t ∈ log ∧ .returned k original ∈ log ∧
    proof.stamp = original.stamp ∧ proof.issued = original.issued ∧
    original.issued ≤ t ∧ t ≤ now
  enroll : ∀ e, s.enroll = some e → .began k e.stamp e.issued ∈ log

/-- The account flags that nothing changes. -/
def Operational (u : Account) : Prop :=
  u.isActive = true ∧ u.isRemote = false ∧ u.isServiceAccount = false

structure Request.Traced (σ : GateState) (r : Request) : Prop where
  copy : r.copy.Traced σ.log σ.now r.session
  prepared : ∀ proof, r.phase = .prepared proof →
    .returned r.session proof ∈ σ.log ∧ proof.issued ≤ σ.now
  waiting : r.phase = .waiting → Operational (σ.accounts r.user) ∧
    r.copy.backend = some localBackend

structure GateState.Traced (σ : GateState) : Prop where
  sessions : ∀ k, (σ.sessions k).Traced σ.log σ.now k
  requests : ∀ r ∈ σ.requests, r.Traced σ

section Traced
variable {p : Primitives} {σ τ : GateState} {s : Session} {r : Request} {k : ℕ}

theorem Session.traced_empty (log : List Event) (now k : ℕ) : Session.empty.Traced log now k :=
  ⟨by simp [Session.empty], by simp [Session.empty]⟩

theorem Session.Traced.mono {log log' : List Event} {now now' : ℕ} (h : s.Traced log now k)
    (hlog : log ⊆ log') (hnow : now ≤ now') : s.Traced log' now' k where
  proof proof hp := by
    obtain ⟨original, t, hc, hr, hstamp, hissued, hle, ht⟩ := h.proof proof hp
    exact ⟨original, t, hlog hc, hlog hr, hstamp, hissued, hle, ht.trans hnow⟩
  enroll e he := hlog (h.enroll e he)

theorem Session.Traced.authLogin {log : List Event} {now : ℕ} (h : s.Traced log now k)
    (user : ℕ) (backend : Bytes) : (authLogin s user backend).Traced log now k := by
  unfold Operator.authLogin
  split
  · exact ⟨h.proof, h.enroll⟩
  · exact ⟨by simp [Session.empty], by simp [Session.empty]⟩

/-- Time passes, the log grows and accounts keep their flags. -/
structure Later (σ τ : GateState) : Prop where
  log : σ.log ⊆ τ.log
  now : σ.now ≤ τ.now
  flags : ∀ k, Operational (σ.accounts k) → Operational (τ.accounts k)

theorem Request.Traced.mono (h : r.Traced σ) (hl : Later σ τ) : r.Traced τ where
  copy := h.copy.mono hl.log hl.now
  prepared proof hp := by
    obtain ⟨hr, hle⟩ := h.prepared proof hp
    exact ⟨hl.log hr, hle.trans hl.now⟩
  waiting hp := by
    obtain ⟨hflags, hback⟩ := h.waiting hp
    exact ⟨hl.flags _ hflags, hback⟩

/-- A request in a phase without obligations is traced when its copy is. -/
theorem Request.traced_of_copy (hcopy : r.copy.Traced σ.log σ.now r.session)
    (hprepared : ∀ proof, r.phase ≠ .prepared proof) (hwaiting : r.phase ≠ .waiting) :
    r.Traced σ :=
  ⟨hcopy, fun proof hp => absurd hp (hprepared proof), fun hp => absurd hp hwaiting⟩

theorem Request.Traced.decided (h : r.Traced σ) (fs : List Bytes) (verdict : Verdict) :
    (r.decided fs verdict).Traced σ := by
  cases verdict <;>
    exact Request.traced_of_copy h.copy (by simp [Request.decided]) (by simp [Request.decided])

/-- A refreshed fingerprint keeps stamp and issue time. -/
theorem Request.Traced.afterSecond (h : r.Traced σ) (status : ℕ) (fs : List Bytes) :
    (r.afterSecond p status fs).Traced σ := by
  simp only [Request.afterSecond]
  split
  · exact Request.traced_of_copy ⟨h.copy.proof, h.copy.enroll⟩ (by simp) (by simp)
  · split
    · refine Request.traced_of_copy ⟨?_, h.copy.enroll⟩ (by simp) (by simp)
      intro proof hp
      obtain ⟨old, hold, rfl⟩ := Option.map_eq_some_iff.mp hp
      exact h.copy.proof old hold
    · exact Request.traced_of_copy ⟨h.copy.proof, h.copy.enroll⟩ (by simp) (by simp)

theorem GateState.Traced.of_later (h : σ.Traced) (hl : Later σ τ)
    (hsessions : ∀ k, τ.sessions k = σ.sessions k ∨ (τ.sessions k).Traced τ.log τ.now k)
    (hrequests : ∀ r ∈ τ.requests, r ∈ σ.requests ∨ r.Traced τ) : τ.Traced where
  sessions k := by
    rcases hsessions k with hsame | ht
    · rw [hsame]
      exact (h.sessions k).mono hl.log hl.now
    · exact ht
  requests r hr := by
    rcases hrequests r hr with hold | ht
    · exact (h.requests r hold).mono hl
    · exact ht

theorem GateState.Traced.setRequest (h : σ.Traced) {i : ℕ} (hl : Later σ τ)
    (hsessions : τ.sessions = σ.sessions) (hrequests : τ.requests = σ.requests.set i r)
    (hr : r.Traced τ) : τ.Traced := by
  refine h.of_later hl (fun k => Or.inl (by rw [hsessions])) fun q hq => ?_
  rw [hrequests] at hq
  rcases List.mem_or_eq_of_mem_set hq with hmem | rfl
  · exact Or.inl hmem
  · exact Or.inr hr

theorem GateState.Traced.append (h : σ.Traced) (hl : Later σ τ)
    (hsessions : τ.sessions = σ.sessions) (hrequests : τ.requests = σ.requests ++ [r])
    (hr : r.Traced τ) : τ.Traced := by
  refine h.of_later hl (fun k => Or.inl (by rw [hsessions])) fun q hq => ?_
  rw [hrequests] at hq
  rcases List.mem_append.mp hq with hmem | hmem
  · exact Or.inl hmem
  · obtain rfl := List.mem_singleton.mp hmem
    exact Or.inr hr

theorem later_of_eq (hlog : τ.log = σ.log) (hnow : τ.now = σ.now) (hacc : τ.accounts = σ.accounts) :
    Later σ τ :=
  ⟨by rw [hlog]; exact fun _ h => h, by rw [hnow], by rw [hacc]; exact fun _ h => h⟩

theorem later_of_cons {e : Event} (hlog : τ.log = e :: σ.log) (hnow : τ.now = σ.now)
    (hacc : τ.accounts = σ.accounts) : Later σ τ :=
  ⟨by rw [hlog]; exact List.subset_cons_self _ _, by rw [hnow], by rw [hacc]; exact fun _ h => h⟩

theorem operational_setAccount {user : ℕ} {u : Account} (hu : Operational (σ.accounts user) → Operational u)
    (j : ℕ) (h : Operational (σ.accounts j)) : Operational ((σ.setAccount user u).accounts j) := by
  unfold GateState.setAccount
  by_cases hj : j = user
  · subst hj
    simpa using hu h
  · simpa [Function.update_of_ne hj] using h

theorem later_published (σ : GateState) (r : Request) (working : List Device) :
    Later σ (σ.published p r working) := by
  have hflags (j : ℕ) (h : Operational (σ.accounts j)) : Operational
      ((σ.setAccount r.user { σ.account r.user with devices := working }).accounts j) := by
    refine operational_setAccount ?_ j h
    exact fun h => h
  simp only [GateState.published]
  split
  · exact ⟨fun _ h => List.mem_cons_of_mem _ h, le_rfl, hflags⟩
  · exact ⟨fun _ h => h, le_rfl, hflags⟩

/-- Closing a request empties its session or leaves the records as they are. -/
theorem GateState.Traced.close (h : σ.Traced) {i : ℕ} (hr : r.Traced σ) (flush : Bool) :
    (σ.close i r flush).Traced := by
  unfold GateState.close
  split
  · refine h.of_later ⟨fun _ h => h, le_rfl, fun _ h => h⟩ (fun k => ?_) fun q hq => ?_
    · by_cases hk : k = r.session
      · subst hk
        right
        simpa [GateState.setSession, GateState.setRequest] using Session.traced_empty _ _ _
      · left
        simp [GateState.setSession, GateState.setRequest, Function.update_of_ne hk]
    · rcases List.mem_or_eq_of_mem_set hq with hmem | rfl
      · exact Or.inl hmem
      · exact Or.inr (Request.traced_of_copy (Session.traced_empty _ _ _) (by simp) (by simp))
  · exact h.setRequest ⟨fun _ h => h, le_rfl, fun _ h => h⟩ rfl rfl
      (Request.traced_of_copy hr.copy (by simp) (by simp))

theorem operational_of_isLocal {u : Account} (h : isLocal u = true) : Operational u := by
  simp only [isLocal, Bool.and_eq_true, Bool.not_eq_true'] at h
  exact ⟨h.1.1.1, h.1.1.2, h.1.2⟩

theorem beginEnrollment_traced {log : List Event} {now : ℕ} {u : Account} {s' : Session}
    (h : beginEnrollment p now s u = some s') (hlog : .began k (stamp u) now ∈ log) :
    s'.Traced log now k := by
  unfold beginEnrollment at h
  split_ifs at h
  obtain rfl := Option.some.inj h
  refine ⟨by simp, ?_⟩
  intro e he
  obtain rfl := Option.some.inj he
  exact hlog

theorem GateStep.traced {action : GateAction} (hstep : GateStep p σ action τ) (h : σ.Traced) :
    τ.Traced := by
  have hreq {i : ℕ} {r : Request} (hi : σ.requests[i]? = some r) : r.Traced σ :=
    h.requests r (List.mem_of_getElem? hi)
  cases hstep with
  | idle => exact h
  | arrives huser =>
    exact h.append (later_of_eq rfl rfl rfl) rfl rfl
      (Request.traced_of_copy (h.sessions _) (by simp [Request.begin]) (by simp [Request.begin]))
  | early hi hphase hearly =>
    exact h.setRequest (later_of_eq rfl rfl rfl) rfl rfl
      (((hreq hi).decided _ _).mono (later_of_eq rfl rfl rfl))
  | waits hi hphase hearly hlocked =>
    obtain ⟨hlocal, hback, -⟩ := earlyVerdict_none hearly
    refine h.setRequest (later_of_eq rfl rfl rfl) rfl rfl ⟨(hreq hi).copy, by simp, fun _ => ?_⟩
    exact ⟨operational_of_isLocal hlocal, hback⟩
  | decides hi hphase hearly hlocked =>
    exact h.setRequest (later_of_eq rfl rfl rfl) rfl rfl
      (((hreq hi).decided _ _).mono (later_of_eq rfl rfl rfl))
  | acquires hi hphase hfree =>
    exact h.setRequest (later_of_eq rfl rfl rfl) rfl rfl
      (((hreq hi).decided _ _).mono (later_of_eq rfl rfl rfl))
  | views hi hphase hfree | changes hi hphase hlock | leaves flush hi hphase | dies hi hfree
  | rollsBack hi hlock | refuses hi hphase =>
    exact h.setRequest (later_of_eq rfl rfl rfl) rfl rfl
      (Request.traced_of_copy (hreq hi).copy (by simp) (by simp))
  | rereads hi hphase hreads =>
    exact h.setRequest (later_of_eq rfl rfl rfl) rfl rfl
      (((hreq hi).afterSecond _ _).mono (later_of_eq rfl rfl rfl))
  | closes hi hphase hfree => exact h.close (hreq hi) _
  | @publishes i r flush working hi hphase hlock =>
    have hl : Later σ (σ.published p r working) := later_published σ r working
    have ht : (σ.published p r working).Traced :=
      h.of_later hl (fun k => Or.inl (by simp)) fun q hq => Or.inl (by simpa using hq)
    exact ht.close ((hreq hi).mono hl) _
  | @saves i r hi hphase =>
    refine h.of_later (later_of_eq rfl rfl rfl) (fun k => ?_) fun q hq => ?_
    · by_cases hk : k = r.session
      · subst hk
        right
        simpa [GateState.setSession, GateState.setRequest] using (hreq hi).copy
      · left
        simp [GateState.setSession, GateState.setRequest, Function.update_of_ne hk]
    · rcases List.mem_or_eq_of_mem_set hq with hmem | rfl
      · exact Or.inl hmem
      · exact Or.inr (Request.traced_of_copy (hreq hi).copy (by simp) (by simp))
  | begins hbegin =>
    refine h.append (later_of_cons rfl rfl rfl) rfl rfl (Request.traced_of_copy ?_
      (by simp [Request.begin]) (by simp [Request.begin]))
    exact beginEnrollment_traced hbegin List.mem_cons_self
  | denies =>
    exact h.append (later_of_eq rfl rfl rfl) rfl rfl (Request.traced_of_copy
      ((h.sessions _).authLogin _ _) (by simp [Request.begin]) (by simp [Request.begin]))
  | prepares =>
    exact h.append (later_of_eq rfl rfl rfl) rfl rfl
      (Request.traced_of_copy (h.sessions _) (by simp [Request.begin]) (by simp [Request.begin]))
  | accepts hi hphase hdevice =>
    refine h.setRequest (later_of_cons rfl rfl rfl) rfl rfl
      ⟨(hreq hi).copy.mono (List.subset_cons_self _ _) le_rfl, ?_, by simp⟩
    intro proof hp
    obtain rfl := RequestPhase.prepared.inj hp
    exact ⟨List.mem_cons_self, le_rfl⟩
  | @completes i r proof hi hphase =>
    obtain ⟨hret, hle⟩ := (hreq hi).prepared proof hphase
    refine h.setRequest (later_of_cons rfl rfl rfl) rfl rfl
      (Request.traced_of_copy ⟨?_, by simp [completeMfa]⟩ (by simp) (by simp))
    intro attached hattached
    obtain rfl := Option.some.inj hattached
    exact ⟨proof, σ.now, List.mem_cons_self, List.mem_cons_of_mem _ hret, rfl, rfl, hle, le_rfl⟩
  | password =>
    exact h.of_later ⟨fun _ h => h, le_rfl, operational_setAccount fun h => h⟩
      (fun k => Or.inl rfl) fun q hq => Or.inl hq
  | devices =>
    exact h.of_later ⟨fun _ h => h, le_rfl, operational_setAccount fun h => h⟩
      (fun k => Or.inl rfl) fun q hq => Or.inl hq
  | advances =>
    exact h.of_later ⟨fun _ h => h, Nat.le_add_right _ _, fun _ h => h⟩
      (fun k => Or.inl rfl) fun q hq => Or.inl hq

theorem GateState.after_traced (now : ℕ) (accounts : ℕ → Account) (actions : List GateAction) :
    (GateState.after p (.initial now accounts) actions).Traced := by
  induction actions with
  | nil => exact ⟨fun k => Session.traced_empty _ _ _, by simp [GateState.after, GateState.initial]⟩
  | cons action earlier ih => exact (GateState.step_cases p _ action).traced ih

theorem phase_of_set {l : List Request} {i j : ℕ} {q r r' : Request} (hi : l[i]? = some r)
    (hi' : (l.set j q)[i]? = some r') : r' = r ∨ (j = i ∧ r' = q) := by
  by_cases hij : j = i
  · subst hij
    rw [List.getElem?_set_self (List.getElem?_eq_some_iff.mp hi).1, Option.some.injEq] at hi'
    exact Or.inr ⟨rfl, hi'.symm⟩
  · rw [List.getElem?_set_ne hij, hi, Option.some.injEq] at hi'
    exact Or.inl hi'.symm

/-- A request reaches its view only through the decision or as a logout. -/
theorem GateStep.enters_view {action : GateAction} (hstep : GateStep p σ action τ) (ht : σ.Traced)
    {i : ℕ} {r' : Request} (hi : σ.requests[i]? = some r) (hi' : τ.requests[i]? = some r')
    (hbefore : r.phase ≠ .inner) (hafter : r'.phase = .inner) (hlogout : r.view ≠ .logout) :
    Operational (σ.account r.user) ∧ r.copy.backend = some localBackend ∧
    ∃ verified enrolling, decision p σ.now r.view r.post r.copy (σ.account r.user) =
      .handler verified enrolling := by
  have hset {j : ℕ} {q : Request} (hj : (σ.requests.set j q)[i]? = some r') : j = i ∧ r' = q := by
    rcases phase_of_set hi hj with rfl | h
    · exact absurd hafter hbefore
    · exact h
  have hsame (hj : σ.requests[i]? = some r') : False := by
    rw [hi, Option.some.injEq] at hj
    exact hbefore (hj ▸ hafter)
  have happend {q : Request} (hj : (σ.requests ++ [q])[i]? = some r') : False := by
    rw [List.getElem?_append_left (List.getElem?_eq_some_iff.mp hi).1] at hj
    exact hsame hj
  have hdecided {fs : List Bytes} {verdict : Verdict} (h : r' = r.decided fs verdict) :
      ∃ verified enrolling, verdict = .handler verified enrolling := by
    cases verdict with
    | respond status flush => simp [h, Request.decided] at hafter
    | handler verified enrolling => exact ⟨_, _, rfl⟩
  -- Every other step leaves the request alone or puts it into another phase.
  cases hstep with
  | idle | password | devices | advances => exact (hsame hi').elim
  | arrives | begins | denies | prepares => exact (happend hi').elim
  | early hj hphase hearly =>
    obtain ⟨rfl, h⟩ := hset hi'
    obtain rfl := Option.some.inj (hi.symm.trans hj)
    obtain ⟨verified, enrolling, rfl⟩ := hdecided h
    exact absurd (earlyVerdict_handler hearly) hlogout
  | decides hj hphase hearly hlocked =>
    obtain ⟨rfl, h⟩ := hset hi'
    obtain rfl := Option.some.inj (hi.symm.trans hj)
    obtain ⟨hlocal, hback, -⟩ := earlyVerdict_none hearly
    exact ⟨operational_of_isLocal hlocal, hback, hdecided h⟩
  | acquires hj hphase hfree =>
    obtain ⟨rfl, h⟩ := hset hi'
    obtain rfl := Option.some.inj (hi.symm.trans hj)
    obtain ⟨hflags, hback⟩ := (ht.requests r (List.mem_of_getElem? hi)).waiting hphase
    exact ⟨hflags, hback, hdecided h⟩
  | rereads hj hphase hreads =>
    obtain ⟨rfl, rfl⟩ := hset hi'
    simp only [Request.afterSecond] at hafter
    split_ifs at hafter
  | closes hj hphase hfree =>
    obtain ⟨q, hq, hrequests⟩ := close_requests σ _ _ _
    rw [hrequests] at hi'
    obtain ⟨-, rfl⟩ := hset hi'
    simp [hq] at hafter
  | @publishes j q flush working hj hphase hlock =>
    obtain ⟨q', hq, hrequests⟩ := close_requests (σ.published p q working) j q flush
    rw [hrequests, published_requests] at hi'
    obtain ⟨-, rfl⟩ := hset hi'
    simp [hq] at hafter
  | waits | views | changes | leaves | saves | dies | rollsBack | accepts | refuses | completes =>
    obtain ⟨-, rfl⟩ := hset hi'
    cases hafter

end Traced

/-- Whenever the middleware calls the view of an authenticated request other than logout, the
account is an active local human one, and either the session completed a factor login of this
account within `proofSeconds`, for the password as it is now, and the proof's fingerprint is
that of the factors there are; or there are no factors, the view is the setup view, and the
session began enrollment for this account and password within `enrollSeconds`. -/
theorem gate_history (p : Primitives) (now : ℕ) (accounts : ℕ → Account)
    (actions : List GateAction) (action : GateAction) (i : ℕ) (r r' : Request) :
    let σ := GateState.after p (.initial now accounts) actions
    σ.requests[i]? = some r → (σ.step p action).requests[i]? = some r' →
    r.phase ≠ .inner → r'.phase = .inner → r.view ≠ .logout →
    let u := σ.account r.user
    let fs := σ.factorsOf p r.user
    Operational u ∧ r.copy.backend = some localBackend ∧
    ((∃ proof original t, r.copy.proof = some proof ∧
        .completed r.session original t ∈ σ.log ∧ .returned r.session original ∈ σ.log ∧
        original.stamp = stamp u ∧ proof.issued = original.issued ∧
        original.issued ≤ t ∧ t ≤ σ.now ∧ σ.now - original.issued ≤ proofSeconds * 1000 ∧
        fs ≠ [] ∧ proof.factors = factorsDigest p fs) ∨
      (fs = [] ∧ r.view = .addTotp ∧
        ∃ t ≤ σ.now, .began r.session (stamp u) t ∈ σ.log ∧ σ.now - t ≤ enrollSeconds * 1000)) := by
  intro σ hi hi' hbefore hafter hlogout u fs
  have ht : σ.Traced := GateState.after_traced now accounts actions
  have hcopy := (ht.requests r (List.mem_of_getElem? hi)).copy
  obtain ⟨hflags, hback, verified, enrolling, hdecision⟩ :=
    (GateState.step_cases p σ action).enters_view ht hi hi' hbefore hafter hlogout
  obtain ⟨rfl, rfl, hcases, -⟩ := decision_handler hdecision
  refine ⟨hflags, hback, ?_⟩
  rcases hcases with hv | ⟨he, hview⟩
  · left
    obtain ⟨proof, hproof, hne, hstamp, -, hage, -, hdigest⟩ := proofValid_iff.mp hv
    obtain ⟨original, t, hcompleted, hreturned, hs, hissued, hle, htn⟩ := hcopy.proof proof hproof
    exact ⟨proof, original, t, hproof, hcompleted, hreturned, hs ▸ hstamp, hissued, hle, htn,
      hissued ▸ hage, hne, hdigest⟩
  · right
    obtain ⟨e, henroll, hempty, hstamp, hle, hage⟩ := enrollingNow_iff.mp he
    refine ⟨hempty, hview, e.issued, hle, ?_, hage⟩
    rw [← hstamp]
    exact hcopy.enroll e henroll

/-- A factor login and a request after it, newest first. -/
def sampleLogin : List GateAction :=
  [.arrive 0 .other false, .save 0, .complete 0, .advance 500, .accept 0 (.totp 1 "s".toList),
    .prepare 0 1]

def sampleProof : Proof := ⟨⟨1, "h".toList⟩, 7000, "s".toList⟩

def sampleRequest : Request :=
  .begin 0 1 .other false
    ⟨some 1, some localBackend, some sampleProof, none, none, true⟩ .arrived

theorem gate_history_sample :
    let σ := GateState.after samplePrimitives (.initial 7000 fun _ => sampleAccount) sampleLogin
    σ.requests[1]? = some sampleRequest ∧ Operational (σ.account 1) :=
  ⟨rfl, (gate_history samplePrimitives 7000 (fun _ => sampleAccount) sampleLogin (.enter 1 true) 1
    sampleRequest { sampleRequest with phase := .inner, verified := true, before := ["s".toList] }
    rfl rfl (by simp [sampleRequest, Request.begin]) rfl (by decide)).1⟩

end Operator
