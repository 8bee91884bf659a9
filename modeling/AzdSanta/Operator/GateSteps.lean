import AzdSanta.Operator.Gate

/-! Everything one step of the middleware system can do. -/
namespace Operator
open Redis

section Decisions
variable {p : Primitives} {s : Session}

/-- The middleware went on after the early checks. -/
theorem earlyVerdict_none {view : View} {storeReady : Bool} {u : Account}
    (h : earlyVerdict view storeReady s u = none) :
    isLocal u = true ∧ s.backend = some localBackend ∧ view ≠ .logout := by
  unfold earlyVerdict at h
  split_ifs at h with _ _ hlocal hlogout
  simpa [isLocalIn, hlogout] using hlocal

theorem earlyVerdict_handler {view : View} {storeReady verified enrolling : Bool} {u : Account}
    (h : earlyVerdict view storeReady s u = some (.handler verified enrolling)) : view = .logout := by
  unfold earlyVerdict at h
  split_ifs at h with hstore hrealm hlocal hlogout
  all_goals first | exact hlogout | cases h

/-- The view is called with a valid proof, or for the setup view while enrolling; a deletion
needs two factors. -/
theorem decision_handler {now : ℕ} {view : View} {post : Bool} {u : Account}
    {verified enrolling : Bool} (h : decision p now view post s u = .handler verified enrolling) :
    verified = proofValid p now s u (factors p u.devices) ∧
    enrolling = enrollingNow now s u (factors p u.devices) ∧
    (verified = true ∨ (enrolling = true ∧ view = .addTotp)) ∧
    (view.isDelete → post → 2 ≤ (factors p u.devices).length) := by
  simp only [decision] at h
  split_ifs at h with hlogin hsetup hlast hapi
  obtain ⟨rfl, rfl⟩ := Verdict.handler.inj h
  simp only [Bool.and_eq_true, Bool.not_eq_true', not_and, Bool.not_eq_false, decide_eq_true_eq,
    ne_eq, not_not] at hlogin hsetup hlast
  refine ⟨rfl, rfl, ?_, fun hview hpost => ?_⟩
  · by_cases hv : proofValid p now s u (factors p u.devices) = true
    · exact Or.inl hv
    · rw [Bool.not_eq_true] at hv
      exact Or.inr ⟨hlogin hv, hsetup hv⟩
  · have := hlast ⟨hview, hpost⟩
    omega

/-- A valid proof is of this account and of these factors. -/
theorem proofValid_iff {now : ℕ} {u : Account} {fs : List Bytes} :
    proofValid p now s u fs = true ↔ ∃ proof, s.proof = some proof ∧ fs ≠ [] ∧
      proof.stamp = stamp u ∧ proof.issued ≤ now ∧ now - proof.issued ≤ proofSeconds * 1000 ∧
      s.mfaAuthenticated = true ∧ proof.factors = factorsDigest p fs := by
  unfold proofValid
  split
  · next proof hproof =>
    simp only [hproof, fresh, Bool.and_eq_true, decide_eq_true_eq, Bool.not_eq_true',
      List.isEmpty_eq_false_iff, Option.some.injEq, exists_eq_left']
    tauto
  · next hproof => simp [hproof]

theorem enrollingNow_iff {now : ℕ} {u : Account} {fs : List Bytes} :
    enrollingNow now s u fs = true ↔ ∃ e, s.enroll = some e ∧ fs = [] ∧
      e.stamp = stamp u ∧ e.issued ≤ now ∧ now - e.issued ≤ enrollSeconds * 1000 := by
  unfold enrollingNow
  split
  · next e he =>
    simp only [he, fresh, Bool.and_eq_true, decide_eq_true_eq, List.isEmpty_iff,
      Option.some.injEq, exists_eq_left']
    tauto
  · next he => simp [he]

end Decisions

section Fields
variable (σ : GateState) (p : Primitives) (i : ℕ) (r : Request) (working : List Device) (flush : Bool)

@[simp] theorem published_requests : (σ.published p r working).requests = σ.requests := by
  simp only [GateState.published]
  split <;> rfl

@[simp] theorem published_sessions : (σ.published p r working).sessions = σ.sessions := by
  simp only [GateState.published]
  split <;> rfl

@[simp] theorem published_locks :
    (σ.published p r working).locks = Function.update σ.locks r.user none := by
  simp only [GateState.published]
  split <;> rfl

@[simp] theorem published_accounts : (σ.published p r working).accounts =
    Function.update σ.accounts r.user { σ.account r.user with devices := working } := by
  simp only [GateState.published]
  split <;> rfl

@[simp] theorem published_log : (σ.published p r working).log =
    if factors p working ≠ σ.factorsOf p r.user then
      .changed r.session r.user r.verified r.before :: σ.log
    else σ.log := by
  simp only [GateState.published]
  split <;> rfl

@[simp] theorem close_locks : (σ.close i r flush).locks = σ.locks := by
  unfold GateState.close
  split <;> rfl

@[simp] theorem close_accounts : (σ.close i r flush).accounts = σ.accounts := by
  unfold GateState.close
  split <;> rfl

@[simp] theorem close_log : (σ.close i r flush).log = σ.log := by
  unfold GateState.close
  split <;> rfl

theorem close_requests :
    ∃ q : Request, q.phase = .ended ∧ (σ.close i r flush).requests = σ.requests.set i q := by
  unfold GateState.close
  split
  · exact ⟨{ r with copy := .empty, phase := .ended }, rfl, rfl⟩
  · exact ⟨{ r with phase := .ended }, rfl, rfl⟩

end Fields

/-- The steps from `σ`, each with what it requires. -/
inductive GateStep (p : Primitives) (σ : GateState) : GateAction → GateState → Prop
  /-- The action is not enabled. -/
  | idle (action : GateAction) : GateStep p σ action σ
  | arrives {session user : ℕ} {view : View} {post : Bool}
      (huser : (σ.sessions session).user = some user) :
      GateStep p σ (.arrive session view post)
        (σ.append (.begin session user view post (σ.sessions session) .arrived))
  | early {i : ℕ} {storeReady : Bool} {r : Request} {verdict : Verdict}
      (hi : σ.requests[i]? = some r) (hphase : r.phase = .arrived)
      (hearly : earlyVerdict r.view storeReady r.copy (σ.account r.user) = some verdict) :
      GateStep p σ (.enter i storeReady) (σ.setRequest i (r.decided [] verdict))
  | waits {i : ℕ} {storeReady : Bool} {r : Request} (hi : σ.requests[i]? = some r)
      (hphase : r.phase = .arrived)
      (hearly : earlyVerdict r.view storeReady r.copy (σ.account r.user) = none)
      (hlocked : r.locked) :
      GateStep p σ (.enter i storeReady) (σ.setRequest i { r with phase := .waiting })
  | decides {i : ℕ} {storeReady : Bool} {r : Request} (hi : σ.requests[i]? = some r)
      (hphase : r.phase = .arrived)
      (hearly : earlyVerdict r.view storeReady r.copy (σ.account r.user) = none)
      (hlocked : ¬ r.locked) :
      GateStep p σ (.enter i storeReady) (σ.setRequest i (r.decided (σ.factorsOf p r.user)
        (decision p σ.now r.view r.post r.copy (σ.account r.user))))
  | acquires {i : ℕ} {r : Request} (hi : σ.requests[i]? = some r) (hphase : r.phase = .waiting)
      (hfree : σ.locks r.user = none) :
      GateStep p σ (.acquire i)
        ((σ.setLock r.user (some (i, (σ.account r.user).devices))).setRequest i
          (r.decided (σ.factorsOf p r.user)
            (decision p σ.now r.view r.post r.copy (σ.account r.user))))
  | views {i : ℕ} {change : Change} {status : ℕ} {r : Request} (hi : σ.requests[i]? = some r)
      (hphase : r.phase = .inner) (hfree : ∀ working, σ.locks r.user ≠ some (i, working)) :
      GateStep p σ (.inner i change status) (σ.setRequest i { r with phase := .viewed status })
  | changes {i : ℕ} {change : Change} {status : ℕ} {r : Request} {working : List Device}
      (hi : σ.requests[i]? = some r) (hphase : r.phase = .inner)
      (hlock : σ.locks r.user = some (i, working)) :
      GateStep p σ (.inner i change status)
        ((σ.setRequest i { r with phase := .viewed status }).setLock r.user
          (some (i, change.apply r.view working)))
  | rereads {i status : ℕ} {r : Request} (hi : σ.requests[i]? = some r)
      (hphase : r.phase = .viewed status) (hreads : r.readsAgain) :
      GateStep p σ (.second i)
        (σ.setRequest i (r.afterSecond p status (factors p (σ.devicesSeen i r))))
  | leaves {i status : ℕ} {r : Request} (flush : Bool) (hi : σ.requests[i]? = some r)
      (hphase : r.phase = .viewed status) :
      GateStep p σ (.second i) (σ.setRequest i { r with phase := .responded flush })
  | closes {i : ℕ} {r : Request} {flush : Bool} (hi : σ.requests[i]? = some r)
      (hphase : r.phase = .responded flush) (hfree : ∀ working, σ.locks r.user ≠ some (i, working)) :
      GateStep p σ (.commit i) (σ.close i r flush)
  | publishes {i : ℕ} {r : Request} {flush : Bool} {working : List Device}
      (hi : σ.requests[i]? = some r) (hphase : r.phase = .responded flush)
      (hlock : σ.locks r.user = some (i, working)) :
      GateStep p σ (.commit i) ((σ.published p r working).close i r flush)
  | saves {i : ℕ} {r : Request} (hi : σ.requests[i]? = some r) (hphase : r.phase = .ended) :
      GateStep p σ (.save i)
        ((σ.setSession r.session r.copy).setRequest i { r with phase := .finished })
  | dies {i : ℕ} {r : Request} (hi : σ.requests[i]? = some r)
      (hfree : ∀ working, σ.locks r.user ≠ some (i, working)) :
      GateStep p σ (.abort i) (σ.setRequest i { r with phase := .finished })
  | rollsBack {i : ℕ} {r : Request} {working : List Device} (hi : σ.requests[i]? = some r)
      (hlock : σ.locks r.user = some (i, working)) :
      GateStep p σ (.abort i) ((σ.setRequest i { r with phase := .finished }).setLock r.user none)
  | begins {session user : ℕ} {backend : Bytes} {copy : Session}
      (hbegin : beginEnrollment p σ.now (authLogin (σ.sessions session) user backend)
        (σ.account user) = some copy) :
      GateStep p σ (.login session user backend)
        ((σ.append (.begin session user .other true copy .ended)).record
          (.began session (stamp (σ.account user)) σ.now))
  | denies {session user : ℕ} {backend : Bytes} :
      GateStep p σ (.login session user backend)
        (σ.append (.begin session user .other true (authLogin (σ.sessions session) user backend)
          (.responded true)))
  | prepares {session user : ℕ} :
      GateStep p σ (.prepare session user)
        (σ.append (.begin session user .other true (σ.sessions session)
          (.preparing (σ.account user))))
  | accepts {i : ℕ} {device : Device} {r : Request} {u : Account} (hi : σ.requests[i]? = some r)
      (hphase : r.phase = .preparing u)
      (hdevice : isLocal u ∧ hasFactor p u.devices device) :
      GateStep p σ (.accept i device)
        ((σ.setRequest i { r with
            phase := .prepared ⟨stamp u, σ.now, factorsDigest p (factors p u.devices)⟩ }).record
          (.returned r.session ⟨stamp u, σ.now, factorsDigest p (factors p u.devices)⟩))
  | refuses {i : ℕ} {device : Device} {r : Request} {u : Account} (hi : σ.requests[i]? = some r)
      (hphase : r.phase = .preparing u) :
      GateStep p σ (.accept i device) (σ.setRequest i { r with phase := .responded true })
  | completes {i : ℕ} {r : Request} {proof : Proof} (hi : σ.requests[i]? = some r)
      (hphase : r.phase = .prepared proof) :
      GateStep p σ (.complete i)
        ((σ.setRequest i { r with
            copy := completeMfa (authLogin r.copy r.user localBackend) proof
            phase := .ended }).record (.completed r.session proof σ.now))
  | password {user : ℕ} {authHash : Bytes} {usable : Bool} :
      GateStep p σ (.setPassword user authHash usable)
        (σ.setAccount user
          { σ.account user with sessionAuthHash := authHash, hasUsablePassword := usable })
  | devices {user : ℕ} {ds : List Device} :
      GateStep p σ (.setDevices user ds) (σ.setAccount user { σ.account user with devices := ds })
  | advances {ms : ℕ} : GateStep p σ (.advance ms) { σ with now := σ.now + ms }

/-- The step function takes only these steps. -/
theorem GateState.step_cases (p : Primitives) (σ : GateState) (action : GateAction) :
    GateStep p σ action (σ.step p action) := by
  cases action with
  | arrive session view post =>
    simp only [GateState.step]
    split
    · next huser => exact .arrives huser
    · exact .idle _
  | enter i storeReady =>
    simp only [GateState.step, GateAction.request]
    split
    · next r hi =>
      simp only [GateState.advanceRequest]
      split
      · next hphase =>
        split
        · next hearly => exact .early hi hphase hearly
        · next hearly =>
          split
          · next hlocked => exact .waits hi hphase hearly hlocked
          · next hlocked => exact .decides hi hphase hearly hlocked
      · exact .idle _
    · exact .idle _
  | acquire i =>
    simp only [GateState.step, GateAction.request]
    split
    · next r hi =>
      simp only [GateState.advanceRequest]
      split
      · next hphase hfree => exact .acquires hi hphase hfree
      · exact .idle _
    · exact .idle _
  | inner i change status =>
    simp only [GateState.step, GateAction.request]
    split
    · next r hi =>
      simp only [GateState.advanceRequest]
      split
      · next j working hphase hlock =>
        split
        · next hj =>
          subst hj
          exact .changes hi hphase hlock
        · next hj =>
          refine .views hi hphase fun w hw => hj ?_
          rw [hlock, Option.some.injEq, Prod.mk.injEq] at hw
          exact hw.1
      · next hphase hlock => exact .views hi hphase (by simp [hlock])
      · exact .idle _
    · exact .idle _
  | second i =>
    simp only [GateState.step, GateAction.request]
    split
    · next r hi =>
      simp only [GateState.advanceRequest]
      split
      · next hphase =>
        split
        · exact .leaves true hi hphase
        · split
          · next hreads => exact .rereads hi hphase hreads
          · exact .leaves false hi hphase
      · exact .idle _
    · exact .idle _
  | commit i =>
    simp only [GateState.step, GateAction.request]
    split
    · next r hi =>
      simp only [GateState.advanceRequest]
      split
      · next flush j working hphase hlock =>
        split
        · next hj =>
          subst hj
          exact .publishes hi hphase hlock
        · next hj =>
          refine .closes hi hphase fun w hw => hj ?_
          rw [hlock, Option.some.injEq, Prod.mk.injEq] at hw
          exact hw.1
      · next hphase hlock => exact .closes hi hphase (by simp [hlock])
      · exact .idle _
    · exact .idle _
  | save i =>
    simp only [GateState.step, GateAction.request]
    split
    · next r hi =>
      simp only [GateState.advanceRequest]
      split
      · next hphase => exact .saves hi hphase
      · exact .idle _
    · exact .idle _
  | abort i =>
    simp only [GateState.step, GateAction.request]
    split
    · next r hi =>
      simp only [GateState.advanceRequest]
      split
      · next j working hlock =>
        split
        · next hj =>
          subst hj
          exact .rollsBack hi hlock
        · next hj =>
          refine .dies hi fun w hw => hj ?_
          rw [hlock, Option.some.injEq, Prod.mk.injEq] at hw
          exact hw.1
      · next hlock => exact .dies hi (by simp [hlock])
    · exact .idle _
  | login session user backend =>
    simp only [GateState.step]
    split
    · next hbegin => exact .begins hbegin
    · exact .denies
  | prepare session user => exact .prepares
  | accept i device =>
    simp only [GateState.step, GateAction.request]
    split
    · next r hi =>
      simp only [GateState.advanceRequest]
      split
      · next hphase =>
        split
        · next hdevice => exact .accepts hi hphase hdevice
        · exact .refuses hi hphase
      · exact .idle _
    · exact .idle _
  | complete i =>
    simp only [GateState.step, GateAction.request]
    split
    · next r hi =>
      simp only [GateState.advanceRequest]
      split
      · next hphase => exact .completes hi hphase
      · exact .idle _
    · exact .idle _
  | setPassword user authHash usable => exact .password
  | setDevices user devices => exact .devices
  | advance ms => exact .advances

end Operator
