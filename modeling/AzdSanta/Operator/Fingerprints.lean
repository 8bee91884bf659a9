import AzdSanta.Operator.Locks

/-! Where the proof of a request or of a session comes from, and which factors its fingerprint
is of. -/
namespace Operator
open Redis

/-- Factors change in requests only, not behind the gate. -/
def GateAction.gated : GateAction → Bool
  | .setDevices .. => false
  | _ => true

theorem gated_rule (p : Primitives) : HoldRule p GateAction.gated fun r _ _ => r.busy where
  devices _ _ := rfl
  busy _ _ _ h := h
  decided r now u fs _ := by
    cases decision p now r.view r.post r.copy u <;> rfl
  changed _ _ _ _ _ _ _ _ _ := rfl
  responded r q c w status flush _ _ hflush _ := by simp [Request.busy, hflush]

/-- `r` became `q` and has no other proof than before. It runs verified if it did so or if its
proof is valid now; a lock it held while its response was ready is published or void. -/
structure Request.Moved (p : Primitives) (σ τ : GateState) (j : ℕ) (r q : Request) : Prop where
  session : q.session = r.session
  user : q.user = r.user
  locked : q.locked = r.locked
  proof : ∀ proof, q.copy.proof = some proof → r.copy.proof = some proof
  finished : r.phase = .finished → q.phase = .finished
  preparing : ∀ u, q.phase ≠ .preparing u
  prepared : ∀ proof, q.phase ≠ .prepared proof
  running : q.running → q.verified → (r.running ∧ r.verified) ∨
    proofValid p σ.now r.copy (σ.account r.user) (σ.factorsOf p r.user) = true
  publishes : ∀ flush w, r.phase = .responded flush → σ.locks r.user = some (j, w) →
    q.phase = .finished ∨ τ.factorsOf p r.user = factors p w

/-- What one step can do to request `j`, which is `q` after it. -/
inductive Moves (p : Primitives) (σ τ : GateState) (action : GateAction) (j : ℕ) (q : Request) : Prop
  | same (hj : σ.requests[j]? = some q)
      (hlock : ∀ w, σ.locks q.user = some (j, w) → τ.locks q.user = some (j, w))
  | fresh (hj : j = σ.requests.length)
      (hproof : ∀ proof, q.copy.proof = some proof → (σ.sessions q.session).proof = some proof)
      (hpreparing : ∀ u, q.phase = .preparing u → u = σ.account q.user)
      (hprepared : ∀ proof, q.phase ≠ .prepared proof) (hrunning : q.running = false)
  | moved {r : Request} (hj : σ.requests[j]? = some r) (haction : action.request = some j)
      (hmoved : r.Moved p σ τ j q)
  | refreshed {r : Request} {status : ℕ} {old : Proof} (hj : σ.requests[j]? = some r)
      (haction : action = .second j) (hphase : r.phase = .viewed status) (hreads : r.readsAgain)
      (hverified : r.verified) (hchanged : factors p (σ.devicesSeen j r) ≠ r.before)
      (hold : r.copy.proof = some old)
      (hproof : q.copy.proof =
        some { old with factors := factorsDigest p (factors p (σ.devicesSeen j r)) })
      (hsame : q.session = r.session ∧ q.user = r.user) (hq : q.phase = .responded false)
      (hlocks : τ.locks = σ.locks)
  | accepted {r : Request} {u : Account} {device : Device} (hj : σ.requests[j]? = some r)
      (haction : action = .accept j device) (hphase : r.phase = .preparing u)
      (hq : q = { r with
        phase := .prepared ⟨stamp u, σ.now, factorsDigest p (factors p u.devices)⟩ })
  | completed {r : Request} {proof : Proof} (hj : σ.requests[j]? = some r)
      (haction : action = .complete j) (hphase : r.phase = .prepared proof)
      (hproof : q.copy.proof = some proof) (hsame : q.session = r.session ∧ q.phase = .ended)
      (hlog : τ.log = .completed r.session proof σ.now :: σ.log)

section Moves
variable {p : Primitives} {σ τ : GateState} {action : GateAction} {r q : Request} {i : ℕ}

/-- Only request `i` is replaced, and no other request loses its lock. -/
theorem moves_of_set {j : ℕ} {q' : Request} (hj : τ.requests[j]? = some q')
    (hi : σ.requests[i]? = some r) (hrequests : τ.requests = σ.requests.set i q)
    (hlocks : ∀ k j w, j ≠ i → σ.locks k = some (j, w) → τ.locks k = some (j, w))
    (hq : Moves p σ τ action i q) : Moves p σ τ action j q' := by
  rw [hrequests] at hj
  by_cases hij : i = j
  · subst hij
    rw [List.getElem?_set_self (List.getElem?_eq_some_iff.mp hi).1, Option.some.injEq] at hj
    exact hj ▸ hq
  · rw [List.getElem?_set_ne hij] at hj
    exact .same hj fun w => hlocks _ j w (Ne.symm hij)

theorem moves_of_append {j : ℕ} {q' : Request} (hj : τ.requests[j]? = some q')
    (hrequests : τ.requests = σ.requests ++ [q]) (hlocks : τ.locks = σ.locks)
    (hq : Moves p σ τ action σ.requests.length q) : Moves p σ τ action j q' := by
  rw [hrequests] at hj
  rcases Nat.lt_trichotomy j σ.requests.length with hlt | rfl | hgt
  · rw [List.getElem?_append_left hlt] at hj
    exact .same hj fun w hw => hlocks ▸ hw
  · rw [List.getElem?_append_right le_rfl, Nat.sub_self, List.getElem?_cons_zero, Option.some.injEq] at hj
    exact hj ▸ hq
  · have hout : (σ.requests ++ [q]).length ≤ j := by simpa using hgt
    rw [List.getElem?_eq_none hout] at hj
    cases hj

theorem authLogin_proof {s : Session} {user : ℕ} {backend : Bytes} {proof : Proof}
    (h : (authLogin s user backend).proof = some proof) : s.proof = some proof := by
  unfold authLogin at h
  split at h
  · exact h
  · simp [Session.empty] at h

theorem beginEnrollment_proof {now : ℕ} {s s' : Session} {u : Account}
    (h : beginEnrollment p now s u = some s') : s'.proof = none := by
  unfold beginEnrollment at h
  split_ifs at h
  exact Option.some.inj h ▸ rfl

/-- A decided request runs verified only with a valid proof. -/
theorem Request.moved_decided {j : ℕ} {verdict : Verdict} {fs : List Bytes}
    (hphase : r.phase = .arrived ∨ r.phase = .waiting)
    (hverdict : ∀ verified enrolling, verdict = .handler verified enrolling → verified = true →
      proofValid p σ.now r.copy (σ.account r.user) (σ.factorsOf p r.user) = true) :
    r.Moved p σ τ j (r.decided fs verdict) := by
  have hnot (flush : Bool) : r.phase ≠ .responded flush := by
    rcases hphase with h | h <;> simp [h]
  have hunfinished : r.phase ≠ .finished := by
    rcases hphase with h | h <;> simp [h]
  cases verdict with
  | respond status flush =>
    constructor <;> simp [Request.decided, Request.locked, Request.running, hnot, hunfinished]
  | handler verified enrolling =>
    refine ⟨rfl, rfl, rfl, fun _ h => h, fun h => absurd h hunfinished, ?_, ?_,
      fun _ hv => Or.inr (hverdict _ _ rfl hv), fun flush w h => absurd h (hnot flush)⟩
    all_goals simp [Request.decided]

theorem moved_of_phase {j : ℕ} {phase : RequestPhase}
    (hfinished : r.phase = .finished → phase = .finished) (hpreparing : ∀ u, phase ≠ .preparing u)
    (hprepared : ∀ proof, phase ≠ .prepared proof)
    (hrunning : { r with phase := phase }.running → r.running)
    (hpublishes : ∀ flush w, r.phase = .responded flush → σ.locks r.user = some (j, w) →
      phase = .finished ∨ τ.factorsOf p r.user = factors p w) :
    r.Moved p σ τ j { r with phase := phase } :=
  ⟨rfl, rfl, rfl, fun _ h => h, hfinished, hpreparing, hprepared,
    fun hrun hv => Or.inl ⟨hrunning hrun, hv⟩, hpublishes⟩

/-- Without a refresh the second read keeps the proof. -/
theorem moves_afterSecond {status : ℕ} (hi : σ.requests[i]? = some r)
    (hphase : r.phase = .viewed status) (hreads : r.readsAgain)
    (hτ : τ = σ.setRequest i (r.afterSecond p status (factors p (σ.devicesSeen i r)))) :
    Moves p σ τ (.second i) i (r.afterSecond p status (factors p (σ.devicesSeen i r))) := by
  have hkeeps (seed : Option Bytes) (flush : Bool) : Moves p σ τ (.second i) i
      { r with copy := { r.copy with seed := seed }, phase := .responded flush } := by
    refine .moved hi rfl ⟨rfl, rfl, rfl, fun _ h => h, ?_, ?_, ?_, ?_, ?_⟩
    all_goals simp [hphase, Request.running]
  simp only [Request.afterSecond]
  split_ifs with hseed henrolled hproved
  any_goals exact hkeeps _ _
  all_goals
    cases hold : r.copy.proof with
    | none =>
      refine .moved hi rfl ⟨rfl, rfl, rfl, ?_, ?_, ?_, ?_, ?_, ?_⟩
      all_goals simp [hphase, Request.running, hold]
    | some old =>
      exact .refreshed hi rfl hphase hreads (by tauto) (by tauto) hold (by simp)
        ⟨rfl, rfl⟩ rfl (by rw [hτ]; rfl)

theorem moves_close {flush : Bool} (hi : σ.requests[i]? = some r)
    (hphase : r.phase = .responded flush) {υ : GateState} (hrequests : υ.requests = σ.requests)
    (hlocks : ∀ k j w, j ≠ i → σ.locks k = some (j, w) → υ.locks k = some (j, w))
    (hpublished : ∀ w, σ.locks r.user = some (i, w) → υ.factorsOf p r.user = factors p w)
    {j : ℕ} {q' : Request} (hj : (υ.close i r flush).requests[j]? = some q') :
    Moves p σ (υ.close i r flush) (.commit i) j q' := by
  have hfactors : (υ.close i r flush).factorsOf p r.user = υ.factorsOf p r.user := by
    simp [GateState.factorsOf, GateState.account]
  have hpub (w : List Device) (hw : σ.locks r.user = some (i, w)) :
      (υ.close i r flush).factorsOf p r.user = factors p w := hfactors.trans (hpublished w hw)
  have hlocks' : ∀ k j w, j ≠ i → σ.locks k = some (j, w) → (υ.close i r flush).locks k = some (j, w) := by
    simpa using hlocks
  by_cases hflush : flush
  · refine moves_of_set (q := { r with copy := .empty, phase := .ended }) hj hi ?_ hlocks' ?_
    · simp [GateState.close, hflush, GateState.setRequest, GateState.setSession, hrequests]
    · refine .moved hi rfl ⟨rfl, rfl, rfl, ?_, ?_, ?_, ?_, ?_, fun _ w _ hw => Or.inr (hpub w hw)⟩
      all_goals simp [Session.empty, hphase, Request.running]
  · refine moves_of_set (q := { r with phase := .ended }) hj hi ?_ hlocks' ?_
    · simp [GateState.close, hflush, GateState.setRequest, hrequests]
    · refine .moved hi rfl (moved_of_phase ?_ ?_ ?_ ?_ fun _ w _ hw => Or.inr (hpub w hw))
      all_goals simp [hphase, Request.running]

/-- Every request after a step is as it was, new, or moved on by the step. -/
theorem GateStep.moves (hstep : GateStep p σ action τ) {j : ℕ} {q : Request}
    (hj : τ.requests[j]? = some q) : Moves p σ τ action j q := by
  cases hstep with
  | idle | password | devices | advances => exact .same hj fun _ h => h
  | arrives huser =>
    refine moves_of_append hj rfl rfl (.fresh rfl (fun _ h => h) ?_ ?_ rfl)
    all_goals simp [Request.begin]
  | begins hbegin =>
    refine moves_of_append hj rfl rfl (.fresh rfl ?_ ?_ ?_ rfl)
    all_goals simp [Request.begin, beginEnrollment_proof hbegin]
  | denies =>
    refine moves_of_append hj rfl rfl (.fresh rfl (fun _ h => authLogin_proof h) ?_ ?_ rfl)
    all_goals simp [Request.begin]
  | prepares =>
    refine moves_of_append hj rfl rfl (.fresh rfl (fun _ h => h) ?_ ?_ rfl)
    all_goals simp [Request.begin]
  | early hi hphase hearly =>
    refine moves_of_set hj hi rfl (fun _ _ _ _ h => h)
      (.moved hi rfl (Request.moved_decided (Or.inl hphase) ?_))
    rintro verified enrolling rfl rfl
    unfold earlyVerdict at hearly
    split_ifs at hearly <;> cases hearly
  | decides hi hphase hearly hlocked =>
    refine moves_of_set hj hi rfl (fun _ _ _ _ h => h)
      (.moved hi rfl (Request.moved_decided (Or.inl hphase) ?_))
    rintro verified enrolling hverdict rfl
    exact (decision_handler hverdict).1.symm
  | @acquires i r hi hphase hfree =>
    refine moves_of_set hj hi rfl (fun k j w hne hk => ?_)
      (.moved hi rfl (Request.moved_decided (Or.inr hphase) ?_))
    · exact lock_kept (by simp [hfree]) hne hk
    · rintro verified enrolling hverdict rfl
      exact (decision_handler hverdict).1.symm
  | waits hi hphase | views hi hphase | leaves flush hi hphase | saves hi hphase | refuses hi hphase =>
    refine moves_of_set hj hi rfl (fun _ _ _ _ h => h) (.moved hi rfl (moved_of_phase ?_ ?_ ?_ ?_ ?_))
    all_goals simp [hphase, Request.running]
  | @changes i change status r working hi hphase hlock =>
    refine moves_of_set hj hi rfl (fun k j w hne hk => ?_)
      (.moved hi rfl (moved_of_phase ?_ ?_ ?_ ?_ ?_))
    · exact lock_kept (holder_unique hlock) hne hk
    all_goals simp [hphase, Request.running]
  | rereads hi hphase hreads =>
    exact moves_of_set hj hi rfl (fun _ _ _ _ h => h) (moves_afterSecond hi hphase hreads rfl)
  | closes hi hphase hfree =>
    exact moves_close hi hphase rfl (fun _ _ _ _ h => h) (fun w hw => absurd hw (hfree w)) hj
  | @publishes i r flush working hi hphase hlock =>
    refine moves_close hi hphase (by simp) (fun k j w hne hk => ?_) (fun w hw => ?_) hj
    · rw [published_locks]
      exact lock_kept (holder_unique hlock) hne hk
    · rw [hlock, Option.some.injEq, Prod.mk.injEq] at hw
      obtain ⟨-, rfl⟩ := hw
      simp [GateState.factorsOf, GateState.account]
  | dies hi hfree =>
    refine moves_of_set hj hi rfl (fun _ _ _ _ h => h) (.moved hi rfl (moved_of_phase ?_ ?_ ?_ ?_ ?_))
    all_goals simp [Request.running]
  | @rollsBack i r working hi hlock =>
    refine moves_of_set hj hi rfl (fun k j w hne hk => ?_)
      (.moved hi rfl (moved_of_phase ?_ ?_ ?_ ?_ ?_))
    · exact lock_kept (holder_unique hlock) hne hk
    all_goals simp [Request.running]
  | accepts hi hphase hdevice =>
    exact moves_of_set hj hi rfl (fun _ _ _ _ h => h) (.accepted hi rfl hphase rfl)
  | completes hi hphase =>
    exact moves_of_set hj hi rfl (fun _ _ _ _ h => h)
      (.completed hi rfl hphase rfl ⟨rfl, rfl⟩ rfl)

/-- A session gets its proof from a request of its own that ends. -/
theorem GateStep.session_proof (hstep : GateStep p σ action τ) {s : ℕ} {proof : Proof}
    (hproof : (τ.sessions s).proof = some proof) :
    (σ.sessions s).proof = some proof ∨ ∃ i r, action = .save i ∧ σ.requests[i]? = some r ∧
      r.phase = .ended ∧ r.session = s ∧ r.copy.proof = some proof := by
  have hclose {υ : GateState} {i : ℕ} {r : Request} {flush : Bool} (hυ : υ.sessions = σ.sessions)
      (h : ((υ.close i r flush).sessions s).proof = some proof) : (σ.sessions s).proof = some proof := by
    unfold GateState.close at h
    split at h
    · by_cases hs : s = r.session
      · subst hs
        simp [GateState.setSession, GateState.setRequest, Session.empty] at h
      · simpa [GateState.setSession, GateState.setRequest, Function.update_of_ne hs, hυ] using h
    · simpa [GateState.setRequest, hυ] using h
  cases hstep with
  | closes hi hphase hfree => exact Or.inl (hclose rfl hproof)
  | publishes hi hphase hlock => exact Or.inl (hclose (by simp) hproof)
  | @saves i r hi hphase =>
    by_cases hs : s = r.session
    · subst hs
      right
      exact ⟨i, r, rfl, hi, hphase, rfl, by simpa [GateState.setSession, GateState.setRequest] using hproof⟩
    · left
      simpa [GateState.setSession, GateState.setRequest, Function.update_of_ne hs] using hproof
  | _ => exact Or.inl hproof

end Moves

/-- While a verified request runs, its proof is one of its own user. -/
def GateState.Owned (σ : GateState) : Prop :=
  ∀ r ∈ σ.requests, r.running → r.verified → ∀ proof, r.copy.proof = some proof →
    proof.stamp.user = r.user

/-- The fingerprint is of a factor list in `Seen`. -/
def Proof.Known (p : Primitives) (Seen : ℕ → List Bytes → Prop) (proof : Proof) : Prop :=
  ∃ fs, Seen proof.stamp.user fs ∧ proof.factors = factorsDigest p fs

/-- Request `j` has refreshed its proof and not yet published the factors it is of. -/
structure GateState.Refreshing (p : Primitives) (σ : GateState) (j : ℕ) (r : Request)
    (proof : Proof) : Prop where
  user : proof.stamp.user = r.user
  holder : ∃ flush w, r.phase = .responded flush ∧ σ.locks r.user = some (j, w) ∧
    proof.factors = factorsDigest p (factors p w)

/-- Every fingerprint in use is of factors in `Seen`, apart from those about to be published. -/
structure GateState.Fingerprinted (p : Primitives) (Seen : ℕ → List Bytes → Prop) (σ : GateState) :
    Prop where
  sessions : ∀ (s : ℕ) (proof : Proof), (σ.sessions s).proof = some proof → proof.Known p Seen
  requests : ∀ (j : ℕ) (r : Request) (proof : Proof), σ.requests[j]? = some r →
    r.phase ≠ .finished → r.copy.proof = some proof →
    proof.Known p Seen ∨ σ.Refreshing p j r proof
  preparing : ∀ (j : ℕ) (r : Request) (u : Account), σ.requests[j]? = some r →
    r.phase = .preparing u → Seen u.pk (factors p u.devices)
  prepared : ∀ (j : ℕ) (r : Request) (proof : Proof), σ.requests[j]? = some r →
    r.phase = .prepared proof → proof.Known p Seen

/-- The factors user `k` has had in the run so far. -/
def GateState.Seen (p : Primitives) (start : GateState) (actions : List GateAction) (k : ℕ)
    (fs : List Bytes) : Prop :=
  ∃ old, old <:+ actions ∧ fs = (GateState.after p start old).factorsOf p k

section Fingerprints
variable {p : Primitives} {σ τ : GateState} {action : GateAction} {r : Request} {j : ℕ}
  {Seen Seen' : ℕ → List Bytes → Prop} {proof : Proof}

theorem GateStep.owned (hstep : GateStep p σ action τ) (h : σ.Owned) : τ.Owned := by
  intro q hq hrun hv proof hproof
  obtain ⟨j, hj⟩ := List.mem_iff_getElem?.mp hq
  cases hstep.moves hj with
  | same hj => exact h q (List.mem_of_getElem? hj) hrun hv proof hproof
  | fresh _ _ _ _ hrunning => simp [hrunning] at hrun
  | @moved r hj _ hm =>
    rw [hm.user]
    rcases hm.running hrun hv with ⟨hr, hv⟩ | hvalid
    · exact h r (List.mem_of_getElem? hj) hr hv proof (hm.proof proof hproof)
    · obtain ⟨valid, hvalid, -, hstamp, -⟩ := proofValid_iff.mp hvalid
      obtain rfl := Option.some.inj (hvalid.symm.trans (hm.proof proof hproof))
      exact congrArg Stamp.user hstamp
  | refreshed _ _ _ _ _ _ _ _ _ hq => simp [Request.running, hq] at hrun
  | accepted _ _ _ hq => simp [Request.running, hq] at hrun
  | completed _ _ _ _ hsame => simp [Request.running, hsame.2] at hrun

theorem GateState.after_owned (now : ℕ) (accounts : ℕ → Account) (actions : List GateAction) :
    (GateState.after p (.initial now accounts) actions).Owned := by
  induction actions with
  | nil => simp [GateState.after, GateState.initial, GateState.Owned]
  | cons action earlier ih => exact (GateState.step_cases p _ action).owned ih

theorem Proof.Known.mono (h : proof.Known p Seen) (hmono : ∀ k fs, Seen k fs → Seen' k fs) :
    proof.Known p Seen' := by
  obtain ⟨fs, hseen, heq⟩ := h
  exact ⟨fs, hmono _ _ hseen, heq⟩

/-- A request that stays, or moves on, carries a known proof or is still about to publish. -/
theorem GateState.Refreshing.next (h : σ.Refreshing p j r proof) {q : Request}
    (hm : r.Moved p σ τ j q) (hq : q.phase ≠ .finished) (hnow : ∀ k, Seen' k (τ.factorsOf p k)) :
    proof.Known p Seen' := by
  obtain ⟨flush, w, hphase, hlock, hdigest⟩ := h.holder
  rcases hm.publishes flush w hphase hlock with hfinished | hpublished
  · exact absurd hfinished hq
  · exact ⟨factors p w, h.user ▸ hpublished ▸ hnow r.user, hdigest⟩

/-- The second read of a lock holder sees its own changes, every other one committed factors. -/
theorem refreshed_known_or {status : ℕ} {old : Proof} {q : Request} (howned : σ.Owned)
    (hj : σ.requests[j]? = some r) (hphase : r.phase = .viewed status) (hverified : r.verified)
    (hold : r.copy.proof = some old) (huser : q.user = r.user) (hq : q.phase = .responded false)
    (hlocks : τ.locks = σ.locks) (hnow : ∀ k, Seen k (σ.factorsOf p k)) :
    let proof := { old with factors := factorsDigest p (factors p (σ.devicesSeen j r)) }
    Proof.Known p Seen proof ∨ τ.Refreshing p j q proof := by
  intro proof
  have howner : old.stamp.user = r.user :=
    howned r (List.mem_of_getElem? hj) (by simp [Request.running, hphase]) hverified old hold
  by_cases hheld : ∃ w, σ.locks r.user = some (j, w)
  · obtain ⟨w, hw⟩ := hheld
    refine Or.inr ⟨howner.trans huser.symm, false, w, hq, by rw [huser, hlocks, hw], ?_⟩
    simp [proof, GateState.devicesSeen, hw]
  · have hseen : σ.devicesSeen j r = (σ.account r.user).devices := by
      unfold GateState.devicesSeen
      split
      · next i w hw =>
        rw [if_neg]
        rintro rfl
        exact hheld ⟨w, hw⟩
      · rfl
    exact Or.inl ⟨σ.factorsOf p r.user, howner ▸ hnow r.user, by simp [proof, hseen, GateState.factorsOf]⟩

theorem GateStep.fingerprinted (hstep : GateStep p σ action τ) (howned : σ.Owned)
    (hmono : ∀ k fs, Seen k fs → Seen' k fs) (hbefore : ∀ k, Seen k (σ.factorsOf p k))
    (hafter : ∀ k, Seen' k (τ.factorsOf p k)) (h : σ.Fingerprinted p Seen) :
    τ.Fingerprinted p Seen' where
  sessions s proof hproof := by
    rcases hstep.session_proof hproof with hold | ⟨i, r, -, hi, hphase, -, hcopy⟩
    · exact (h.sessions s proof hold).mono hmono
    · rcases h.requests i r proof hi (by simp [hphase]) hcopy with hknown | hrefreshing
      · exact hknown.mono hmono
      · obtain ⟨flush, w, hresponded, -⟩ := hrefreshing.holder
        simp [hphase] at hresponded
  requests j q proof hj hq hproof := by
    cases hstep.moves hj with
    | same hj hlock =>
      rcases h.requests j q proof hj hq hproof with hknown | ⟨huser, flush, w, hphase, hw, hdigest⟩
      · exact Or.inl (hknown.mono hmono)
      · exact Or.inr ⟨huser, flush, w, hphase, hlock w hw, hdigest⟩
    | fresh _ hloaded => exact Or.inl ((h.sessions _ proof (hloaded proof hproof)).mono hmono)
    | @moved r hj _ hm =>
      have hr : r.phase ≠ .finished := fun hr => hq (hm.finished hr)
      rcases h.requests j r proof hj hr (hm.proof proof hproof) with hknown | hrefreshing
      · exact Or.inl (hknown.mono hmono)
      · exact Or.inl (hrefreshing.next hm hq hafter)
    | refreshed hj _ hphase _ hverified _ hold hnew hsame hresponded hlocks =>
      obtain rfl := Option.some.inj (hnew.symm.trans hproof)
      exact (refreshed_known_or howned hj hphase hverified hold hsame.2 hresponded hlocks hbefore).imp_left
        fun hknown => hknown.mono hmono
    | accepted hr _ hphase heq =>
      subst heq
      rcases h.requests j _ proof hr (by simp [hphase]) hproof with hknown | hrefreshing
      · exact Or.inl (hknown.mono hmono)
      · obtain ⟨flush, w, hresponded, -⟩ := hrefreshing.holder
        simp [hphase] at hresponded
    | completed hj _ hphase hnew =>
      obtain rfl := Option.some.inj (hnew.symm.trans hproof)
      exact Or.inl ((h.prepared j _ _ hj hphase).mono hmono)
  preparing j q u hj hphase := by
    cases hstep.moves hj with
    | same hj => exact hmono _ _ (h.preparing j q u hj hphase)
    | fresh _ _ hu =>
      obtain rfl := hu u hphase
      exact hmono _ _ (hbefore q.user)
    | moved _ _ hm => exact absurd hphase (hm.preparing u)
    | refreshed _ _ _ _ _ _ _ _ _ hq => simp [hq] at hphase
    | accepted _ _ _ hq => simp [hq] at hphase
    | completed _ _ _ _ hsame => simp [hsame.2] at hphase
  prepared j q proof hj hphase := by
    cases hstep.moves hj with
    | same hj => exact (h.prepared j q proof hj hphase).mono hmono
    | fresh _ _ _ hprepared => exact absurd hphase (hprepared proof)
    | moved _ _ hm => exact absurd hphase (hm.prepared proof)
    | refreshed _ _ _ _ _ _ _ _ _ hq => simp [hq] at hphase
    | @accepted r u device hr _ hpreparing hq =>
      subst hq
      obtain rfl := RequestPhase.prepared.inj hphase
      exact ⟨_, hmono _ _ (h.preparing j r u hr hpreparing), rfl⟩
    | completed _ _ _ _ hsame => simp [hsame.2] at hphase

theorem GateState.seen_now (p : Primitives) (start : GateState) (actions : List GateAction) (k : ℕ) :
    GateState.Seen p start actions k ((GateState.after p start actions).factorsOf p k) :=
  ⟨actions, List.suffix_rfl, rfl⟩

theorem GateState.after_fingerprinted (now : ℕ) (accounts : ℕ → Account) (actions : List GateAction) :
    (GateState.after p (.initial now accounts) actions).Fingerprinted p
      (GateState.Seen p (.initial now accounts) actions) := by
  induction actions with
  | nil =>
    constructor
    all_goals simp [GateState.after, GateState.initial, Session.empty]
  | cons action earlier ih =>
    refine (GateState.step_cases p _ action).fingerprinted (GateState.after_owned now accounts earlier)
      ?_ (GateState.seen_now p _ earlier) (GateState.seen_now p _ (action :: earlier)) ih
    rintro k fs ⟨old, hold, rfl⟩
    exact ⟨old, hold.trans (List.suffix_cons action earlier), rfl⟩

end Fingerprints
end Operator
