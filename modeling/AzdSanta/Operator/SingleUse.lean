import AzdSanta.Operator.Replay

/-! Verification tokens and time steps are accepted once: the claim keys live as long as
the token or the step could still be presented. -/
namespace Operator
open Redis SecurityStore Unique

/-- The token whose challenge claim the call won. -/
def Attempt.wonToken (a : Attempt) : Option Bytes :=
  match a.challenge with
  | .replied (.ok true) => some a.token
  | _ => none

/-- The factor and time step whose claim the call won. -/
def Attempt.wonStep (p : Primitives) (a : Attempt) : Option (Bytes × ℤ) :=
  match a.stepMsg with
  | .replied (.ok true) => a.step.map fun c => (material p a.device, c)
  | _ => none

/-- What holds of a call when `C` is known of won challenges and `S` of won time steps. -/
structure Attempt.Ok (p : Primitives) (issued : Bytes → Option Signed) (now : ℕ)
    (C : Bytes → Signed → Prop) (S : Bytes → ℤ → Prop) (a : Attempt) : Prop where
  sent : ∀ t, a.challenge = .sent t →
    ∃ d, issued a.token = some d ∧ t ≤ now ∧ t ≤ (d.timestamp + challengeSeconds) * 1000
  won : ∀ token, a.wonToken = some token → ∃ d, issued token = some d ∧ C token d
  claimed : a.phase = .claimingStep ∨ a.phase = .returned → a.wonToken = some a.token
  stepSent : ∀ t, a.stepMsg = .sent t →
    ∃ c, a.step = some c ∧ t ≤ now ∧ 30000 * c ≤ t ∧ t < 30000 * (c + 2)
  stepKnown : ∀ reply, a.stepMsg = .replied reply → ∃ c, a.step = some c
  stepWon : ∀ m c, a.wonStep p = some (m, c) → S m c
  returned : a.phase = .returned → ∀ pk secret, a.device = .totp pk secret →
    ∃ c, a.step = some c ∧ a.wonStep p = some (material p a.device, c)

structure World.Ok (p : Primitives) (C : Bytes → Signed → Prop) (S : Bytes → ℤ → Prop)
    (σ : World) : Prop where
  issued : ∀ token d, σ.issued token = some d → d.timestamp ≤ σ.store.seconds
  attempts : ∀ a ∈ σ.attempts, a.Ok p σ.issued σ.store.now C S

/-- The call returned for `token`. -/
def Attempt.accepts (token : Bytes) (a : Attempt) : Bool :=
  a.phase = .returned && a.token = token

/-- The call returned for time step `c` of the TOTP factor with material `m`. -/
def Attempt.acceptsStep (p : Primitives) (m : Bytes) (c : ℤ) (a : Attempt) : Bool :=
  match a.device with
  | .totp .. => a.phase = .returned && material p a.device = m && a.step = some c
  | .webauthn .. => false

section Attempts
variable {p : Primitives} {issued issued' : Bytes → Option Signed} {now now' : ℕ}
  {C C' : Bytes → Signed → Prop} {S S' : Bytes → ℤ → Prop} {a : Attempt}

theorem Attempt.Ok.mono (ha : a.Ok p issued now C S) (hnow : now ≤ now')
    (hissued : ∀ token d, issued token = some d → issued' token = some d)
    (hC : ∀ token d, C token d → C' token d) (hS : ∀ m c, S m c → S' m c) :
    a.Ok p issued' now' C' S' where
  sent t ht := by
    obtain ⟨d, hd, htn, hmax⟩ := ha.sent t ht
    exact ⟨d, hissued _ _ hd, htn.trans hnow, hmax⟩
  won token h := by
    obtain ⟨d, hd, hc⟩ := ha.won token h
    exact ⟨d, hissued _ _ hd, hC _ _ hc⟩
  claimed := ha.claimed
  stepSent t ht := by
    obtain ⟨c, hc, htn, hlo, hhi⟩ := ha.stepSent t ht
    exact ⟨c, hc, htn.trans hnow, hlo, hhi⟩
  stepKnown := ha.stepKnown
  stepWon m c h := hS m c (ha.stepWon m c h)
  returned := ha.returned

theorem Attempt.Ok.rejected (ha : a.Ok p issued now C S) :
    ({ a with phase := .rejected } : Attempt).Ok p issued now C S where
  sent := ha.sent
  won := ha.won
  claimed h := by simp at h
  stepSent := ha.stepSent
  stepKnown := ha.stepKnown
  stepWon := ha.stepWon
  returned h := by simp at h

theorem Attempt.Ok.giveUp (ha : a.Ok p issued now C S) : a.giveUp.Ok p issued now C S := by
  unfold Attempt.giveUp
  split
  · exact ha.rejected
  · exact ha.rejected
  · exact ha

/-- A matched step is the current one or the one before it. -/
theorem matchStep_bounds {secret : Bytes} {code : Option Bytes} {c : ℤ}
    (h : matchStep p secret code now = some c) : 30000 * c ≤ now ∧ (now : ℤ) < 30000 * (c + 2) := by
  have hmem := List.mem_of_find?_eq_some h
  simp only [List.mem_cons, List.not_mem_nil, or_false] at hmem
  omega

theorem Attempt.Ok.challengeReply (ha : a.Ok p issued now C S) :
    (a.challengeReply p now).Ok p issued now C S := by
  unfold Attempt.challengeReply
  split
  · next hp hm =>
    have hwon : a.wonToken = some a.token := by simp [Attempt.wonToken, hm]
    split
    · next pk secret hdev =>
      split
      · next c hc =>
        obtain ⟨hlo, hhi⟩ := matchStep_bounds hc
        refine ⟨ha.sent, ha.won, fun _ => hwon, ?_, fun _ _ => ⟨c, rfl⟩, ?_, ?_⟩
        · intro t ht
          obtain rfl := Flight.sent.inj ht
          exact ⟨c, rfl, le_rfl, hlo, hhi⟩
        · intro m c h
          simp [Attempt.wonStep] at h
        · intro h
          simp at h
      · exact ha.rejected
    · next hdev =>
      refine ⟨ha.sent, ha.won, fun _ => hwon, ha.stepSent, ha.stepKnown, ha.stepWon, ?_⟩
      intro _ pk secret htotp
      simp [hdev] at htotp
  · exact ha.rejected
  · exact ha

theorem Attempt.Ok.stepReply (ha : a.Ok p issued now C S) :
    a.stepReply.Ok p issued now C S := by
  unfold Attempt.stepReply
  split
  · next hp hm =>
    obtain ⟨c, hc⟩ := ha.stepKnown _ hm
    refine ⟨ha.sent, ha.won, fun _ => ha.claimed (Or.inl hp), ha.stepSent, ha.stepKnown,
      ha.stepWon, ?_⟩
    intro _ pk secret _
    exact ⟨c, hc, by simp [Attempt.wonStep, hm, hc]⟩
  · exact ha.rejected
  · exact ha

theorem prepareMfa_ok {freshUser : Account} {backend : Option Bytes} {device : Option Device}
    {code : Option Bytes} {token : Bytes}
    (h : prepareMfa p issued now freshUser backend device code token = some a) :
    a.Ok p issued now C S := by
  unfold prepareMfa at h
  split at h
  · cases h
  split_ifs at h
  split at h
  · cases h
  next d hload =>
  split_ifs at h
  obtain rfl := Option.some.inj h
  obtain ⟨hd, hage⟩ := Option.filter_eq_some_iff.mp hload
  refine ⟨?_, ?_, ?_, ?_, ?_, ?_, ?_⟩
  · intro t ht
    obtain rfl := Flight.sent.inj ht
    refine ⟨d, hd, le_rfl, ?_⟩
    rw [Nat.add_mul]
    exact decide_eq_true_iff.mp hage
  all_goals simp [Attempt.wonToken, Attempt.wonStep]

theorem prepareMfa_won {freshUser : Account} {backend : Option Bytes} {device : Option Device}
    {code : Option Bytes} {token : Bytes}
    (h : prepareMfa p issued now freshUser backend device code token = some a) :
    a.wonToken = none ∧ a.wonStep p = none := by
  unfold prepareMfa at h
  split at h
  · cases h
  split_ifs at h
  split at h
  · cases h
  split_ifs at h
  obtain rfl := Option.some.inj h
  exact ⟨rfl, rfl⟩

theorem Attempt.Ok.accepts (ha : a.Ok p issued now C S) {token : Bytes}
    (hacc : a.accepts token) : a.wonToken = some token := by
  simp only [Attempt.accepts, Bool.and_eq_true, decide_eq_true_eq] at hacc
  obtain ⟨hphase, rfl⟩ := hacc
  exact ha.claimed (Or.inr hphase)

theorem Attempt.Ok.acceptsStep (ha : a.Ok p issued now C S) {m : Bytes} {c : ℤ}
    (hacc : a.acceptsStep p m c) : a.wonStep p = some (m, c) := by
  unfold Attempt.acceptsStep at hacc
  split at hacc
  · next pk secret hdev =>
    simp only [Bool.and_eq_true, decide_eq_true_eq] at hacc
    obtain ⟨⟨hphase, rfl⟩, hstep⟩ := hacc
    obtain ⟨c', hc', hwon⟩ := ha.returned hphase pk secret hdev
    obtain rfl := Option.some.inj (hstep.symm.trans hc')
    exact hwon
  · cases hacc

end Attempts

section Steps
variable {p : Primitives} {site : Admission.Site} {σ : World} {action : Action}
  {C C' : Bytes → Signed → Prop} {S S' : Bytes → ℤ → Prop}

/-- What a step establishes about the claims it wins. -/
structure ClaimsWon (p : Primitives) (site : Admission.Site) (σ : World) (action : Action)
    (C : Bytes → Signed → Prop) (S : Bytes → ℤ → Prop) : Prop where
  challenge : ∀ i a d, action = .evalChallenge i → σ.attempts[i]? = some a →
    σ.issued a.token = some d → d.timestamp ≤ σ.store.seconds →
    σ.store.now < (d.timestamp + 360) * 1000 →
    ((cacheAdd site.storeId (challengeKey p a.token) (challengeSeconds + 60)).run σ.store).1 = .ok true →
    (σ.step p site action).store =
      ((cacheAdd site.storeId (challengeKey p a.token) (challengeSeconds + 60)).run σ.store).2 →
    C a.token d
  step : ∀ i a c, action = .evalStep i → σ.attempts[i]? = some a → a.step = some c →
    30000 * c ≤ σ.store.now → σ.store.now < 30000 * (c + 4) →
    ((cacheAdd site.storeId (stepKey p a.device c) 120).run σ.store).1 = .ok true →
    (σ.step p site action).store = ((cacheAdd site.storeId (stepKey p a.device c) 120).run σ.store).2 →
    S (material p a.device) c

/-- One call is replaced and the rest keeps what it knows. -/
theorem World.Ok.replace (hok : σ.Ok p C S) {τ : World} (hissued : τ.issued = σ.issued)
    (hnow : σ.store.now ≤ τ.store.now) {i : ℕ} {a : Attempt}
    (hattempts : τ.attempts = σ.attempts.set i a)
    (hC : ∀ token d, C token d → C' token d) (hS : ∀ m c, S m c → S' m c)
    (ha : a.Ok p σ.issued τ.store.now C' S') : τ.Ok p C' S' where
  issued token d hd := by
    rw [hissued] at hd
    exact (hok.issued token d hd).trans (Nat.div_le_div_right hnow)
  attempts b hb := by
    rw [hattempts] at hb
    rw [hissued]
    rcases List.mem_or_eq_of_mem_set hb with hmem | rfl
    · exact (hok.attempts b hmem).mono hnow (fun _ _ h => h) hC hS
    · exact ha

theorem World.Ok.update (hok : σ.Ok p C S) (i : ℕ) {f : Attempt → Attempt}
    (hf : ∀ a, a.Ok p σ.issued σ.store.now C S → (f a).Ok p σ.issued σ.store.now C S) :
    (σ.update i f).Ok p C S := by
  unfold World.update
  split
  · next a hi =>
    exact hok.replace rfl le_rfl rfl (fun _ _ h => h) (fun _ _ h => h)
      (hf a (hok.attempts a (List.mem_of_getElem? hi)))
  · exact hok

theorem World.Ok.mono (hok : σ.Ok p C S) {store : Store Key} (hnow : σ.store.now ≤ store.now)
    (hC : ∀ token d, C token d → C' token d) (hS : ∀ m c, S m c → S' m c) :
    ({ σ with store := store } : World).Ok p C' S' where
  issued token d hd := (hok.issued token d hd).trans (Nat.div_le_div_right hnow)
  attempts a ha := (hok.attempts a ha).mono hnow (fun _ _ h => h) hC hS

/-- A claim made in time is evaluated before its token's last second plus the margin. -/
theorem lt_of_age {now checked timestamp : ℕ}
    (hage : checked ≤ (timestamp + challengeSeconds) * 1000) (hmargin : now < checked + claimMargin) :
    now < (timestamp + 360) * 1000 := by
  rw [Nat.add_mul] at hage ⊢
  unfold challengeSeconds at hage
  unfold claimMargin at hmargin
  omega

theorem World.Ok.evalChallenge (hok : σ.Ok p C S) (i : ℕ)
    (hC : ∀ token d, C token d → C' token d) (hS : ∀ m c, S m c → S' m c)
    (hwon : ClaimsWon p site σ (.evalChallenge i) C' S') :
    (σ.step p site (.evalChallenge i)).Ok p C' S' := by
  have hnow := (step_effect p site σ (.evalChallenge i)).now_le
  simp only [World.step] at hnow ⊢
  split
  · next token device code phase checked step stepMsg hi =>
    have ha := hok.attempts _ (List.mem_of_getElem? hi)
    obtain ⟨d, hd, -, hage⟩ := ha.sent checked rfl
    split
    · next hmargin =>
      simp only [hi, if_pos hmargin] at hnow
      have hmono := ha.mono hnow (fun _ _ h => h) hC hS
      refine hok.replace rfl hnow rfl hC hS ⟨?_, ?_, ?_, hmono.stepSent, hmono.stepKnown,
        hmono.stepWon, hmono.returned⟩
      · intro t ht
        cases ht
      · intro won hw
        simp only [Attempt.wonToken] at hw
        split at hw
        · next hreply =>
          obtain rfl := Option.some.inj hw
          exact ⟨d, hd, hwon.challenge i _ d rfl hi hd (hok.issued _ _ hd)
            (lt_of_age hage hmargin) (Flight.replied.inj hreply)
            (by simp only [World.step, hi, if_pos hmargin])⟩
        · cases hw
      · intro hp
        -- A call past its challenge has the reply already.
        have := ha.claimed hp
        simp [Attempt.wonToken] at this
    · exact hok.mono le_rfl hC hS
  · exact hok.mono le_rfl hC hS

theorem lt_of_step {now checked : ℕ} {c : ℤ} (hstep : checked < 30000 * (c + 2))
    (hmargin : now < checked + claimMargin) : now < 30000 * (c + 4) := by
  unfold claimMargin at hmargin
  omega

theorem World.Ok.evalStep (hok : σ.Ok p C S) (i : ℕ)
    (hC : ∀ token d, C token d → C' token d) (hS : ∀ m c, S m c → S' m c)
    (hwon : ClaimsWon p site σ (.evalStep i) C' S') :
    (σ.step p site (.evalStep i)).Ok p C' S' := by
  have hnow := (step_effect p site σ (.evalStep i)).now_le
  simp only [World.step] at hnow ⊢
  split
  · next token device code phase challenge step checked hi =>
    have ha := hok.attempts _ (List.mem_of_getElem? hi)
    obtain ⟨c, hc, hchecked, hlo, hhi⟩ := ha.stepSent checked rfl
    obtain rfl := Option.some.inj hc
    split
    · next hmargin =>
      simp only [hi, if_pos hmargin] at hnow
      have hmono := ha.mono hnow (fun _ _ h => h) hC hS
      refine hok.replace rfl hnow rfl hC hS ⟨hmono.sent, hmono.won, hmono.claimed, ?_,
        fun _ _ => ⟨step, rfl⟩, ?_, ?_⟩
      · intro t ht
        cases ht
      · intro m c hw
        simp only [Attempt.wonStep] at hw
        split at hw
        · next hreply =>
          obtain ⟨rfl, rfl⟩ := Prod.mk.inj (Option.some.inj hw)
          exact hwon.step i _ step rfl hi rfl (hlo.trans (by exact_mod_cast hchecked))
            (lt_of_step hhi hmargin) (Flight.replied.inj hreply)
            (by simp only [World.step, hi, if_pos hmargin])
        · cases hw
      · intro hp pk secret hdev
        -- A call that returned has the reply already.
        obtain ⟨c, -, hw⟩ := ha.returned hp pk secret hdev
        simp [Attempt.wonStep] at hw
    · exact hok.mono le_rfl hC hS
  · exact hok.mono le_rfl hC hS

theorem World.Ok.step (hok : σ.Ok p C S) (hC : ∀ token d, C token d → C' token d)
    (hS : ∀ m c, S m c → S' m c) (hwon : ClaimsWon p site σ action C' S') :
    (σ.step p site action).Ok p C' S' := by
  have hnow := (step_effect p site σ action).now_le
  have hkeep := hok.mono le_rfl hC hS
  cases action with
  | sign token userId authBackend azdAuthHash azdNonce =>
    simp only [World.step]
    split
    · next hnew =>
      have hold (token' : Bytes) (d : Signed) (hd : σ.issued token' = some d) :
          Function.update σ.issued token
            (some ⟨σ.store.seconds, userId, authBackend, azdAuthHash, azdNonce⟩) token' = some d := by
        rw [Function.update_of_ne, hd]
        rintro rfl
        simp [hd] at hnew
      refine ⟨?_, fun a ha => (hok.attempts a ha).mono le_rfl hold hC hS⟩
      intro token' d hd
      by_cases htok : token' = token
      · subst htok
        simp only [Function.update_self, Option.some.injEq] at hd
        rw [← hd]
      · simp only [Function.update_of_ne htok] at hd
        exact hok.issued token' d hd
    · exact hkeep
  | prepare freshUser backend device code token =>
    simp only [World.step]
    split
    · next a ha =>
      refine ⟨hok.issued, fun b hb => ?_⟩
      rcases List.mem_append.mp hb with hb | hb
      · exact hkeep.attempts b hb
      · obtain rfl := List.mem_singleton.mp hb
        exact prepareMfa_ok ha
    · exact hkeep
  | evalChallenge i => exact hok.evalChallenge i hC hS hwon
  | evalStep i => exact hok.evalStep i hC hS hwon
  | challengeReply i => exact hkeep.update i fun a ha => ha.challengeReply
  | stepReply i => exact hkeep.update i fun a ha => ha.stepReply
  | giveUp i => exact hkeep.update i fun a ha => ha.giveUp
  | budget key maximum =>
    simp only [World.step] at hnow ⊢
    split
    · next hk =>
      rw [if_pos hk] at hnow
      exact hok.mono hnow hC hS
    · exact hkeep
  | check => exact hok.mono hnow hC hS
  | migrate confirmQuiesced => exact hok.mono hnow hC hS
  | admission data => exact hkeep.mono le_rfl (fun _ _ h => h) (fun _ _ h => h)
  | advance ms => exact hok.mono hnow hC hS

/-- A won challenge is held past the last moment its token can be claimed at. -/
def challengeHeld (p : Primitives) (s : Store Key) (token : Bytes) (d : Signed) : Prop :=
  s.Held (challengeKey p token) ((d.timestamp + 360) * 1000)

/-- A won time step is held past the last moment the step can be claimed at. -/
def stepHeld (s : Store Key) (m : Bytes) (c : ℤ) : Prop :=
  s.Held (.totpUsed m c) (30000 * (c + 4)).toNat

theorem cacheAdd_won {k : Key} {seconds deadline : ℕ} {s : Store Key} (hs : seconds ≠ 0)
    (hwon : ((cacheAdd site.storeId k seconds).run s).1 = .ok true)
    (hd : deadline ≤ s.now + seconds * 1000) :
    ((cacheAdd site.storeId k seconds).run s).2.Held k deadline := by
  rcases storeOperation_run site.storeId (Script.setNxEx k "1".toList seconds) s with
    ⟨e, -, h⟩ | ⟨-, h⟩
  · rw [cacheAdd, h] at hwon
    cases hwon
  · rw [cacheAdd, h] at hwon ⊢
    exact Store.held_of_claim hs hwon hd

theorem cacheAdd_refused {k : Key} {seconds deadline : ℕ} {s : Store Key} (hs : seconds ≠ 0)
    (hheld : s.Held k deadline) (hnow : s.now ≤ deadline) :
    ((cacheAdd site.storeId k seconds).run s).1 ≠ .ok true := by
  rcases storeOperation_run site.storeId (Script.setNxEx k "1".toList seconds) s with
    ⟨e, -, h⟩ | ⟨-, h⟩
  · rw [cacheAdd, h]
    simp
  · rw [cacheAdd, h, hheld.refused hnow hs]
    simp

structure World.SingleUse (p : Primitives) (σ : World) : Prop where
  ok : σ.Ok p (challengeHeld p σ.store) (stepHeld σ.store)
  tokens : UniqueKeys Attempt.wonToken σ.attempts
  steps : UniqueKeys (Attempt.wonStep p) σ.attempts

/-- A claim won now outlives every rival: the 360 and 120 seconds of the keys against the
token age, the two accepted time steps and the margin. -/
theorem claimsWon_held (p : Primitives) (site : Admission.Site) (σ : World) (action : Action) :
    ClaimsWon p site σ action (challengeHeld p (σ.step p site action).store)
      (stepHeld (σ.step p site action).store) where
  challenge i a d _ _ _ hts _ hwon hstore := by
    rw [hstore]
    refine cacheAdd_won (by decide) hwon ?_
    have hle : d.timestamp * 1000 ≤ σ.store.now :=
      (Nat.mul_le_mul_right _ hts).trans (Nat.div_mul_le_self _ _)
    rw [Nat.add_mul]
    exact Nat.add_le_add_right hle _
  step i a c _ _ _ hlo _ hwon hstore := by
    rw [hstore]
    refine cacheAdd_won (by decide) hwon ?_
    simp only [Nat.reduceMul]
    omega

theorem Attempt.challengeReply_wonToken (now : ℕ) (a : Attempt) :
    (a.challengeReply p now).wonToken = a.wonToken := by
  unfold Attempt.challengeReply
  split
  · split
    · split <;> rfl
    · rfl
  · rfl
  · rfl

theorem Attempt.challengeReply_wonStep {now : ℕ} {a : Attempt} {k : Bytes × ℤ}
    (h : (a.challengeReply p now).wonStep p = some k) : a.wonStep p = some k := by
  unfold Attempt.challengeReply at h
  split at h
  · split at h
    · split at h
      · simp [Attempt.wonStep] at h
      · exact h
    · exact h
  · exact h
  · exact h

theorem Attempt.stepReply_won (a : Attempt) :
    a.stepReply.wonToken = a.wonToken ∧ a.stepReply.wonStep p = a.wonStep p := by
  unfold Attempt.stepReply
  split <;> exact ⟨rfl, rfl⟩

theorem Attempt.giveUp_won (a : Attempt) :
    a.giveUp.wonToken = a.wonToken ∧ a.giveUp.wonStep p = a.wonStep p := by
  unfold Attempt.giveUp
  split <;> exact ⟨rfl, rfl⟩

theorem World.update_unique {β : Type} {key : Attempt → Option β} {f : Attempt → Attempt}
    (h : UniqueKeys key σ.attempts) (i : ℕ) (hf : ∀ a k, key (f a) = some k → key a = some k) :
    UniqueKeys key (σ.update i f).attempts := by
  unfold World.update
  split
  · next a hi => exact h.set_of_imp hi (hf a)
  · exact h

/-- Only the winner of a free key takes a token, and a held key is not free in time. -/
theorem World.SingleUse.evalChallenge_tokens (h : σ.SingleUse p) (i : ℕ) :
    UniqueKeys Attempt.wonToken (σ.step p site (.evalChallenge i)).attempts := by
  simp only [World.step]
  split
  · next token device code phase checked step stepMsg hi =>
    split
    · next hmargin =>
      apply h.tokens.set
      intro k hk j b hj hb
      simp only [Attempt.wonToken] at hk
      split at hk
      · next hreply =>
        obtain rfl := Option.some.inj hk
        obtain ⟨d, hd, hheld⟩ := (h.ok.attempts b (List.mem_of_getElem? hj)).won _ hb
        obtain ⟨d', hd', -, hage⟩ := (h.ok.attempts _ (List.mem_of_getElem? hi)).sent checked rfl
        obtain rfl := Option.some.inj (hd.symm.trans hd')
        exact absurd (Flight.replied.inj hreply)
          (cacheAdd_refused (by decide) hheld (lt_of_age hage hmargin).le)
      · cases hk
    · exact h.tokens
  · exact h.tokens

theorem World.SingleUse.evalStep_steps (h : σ.SingleUse p) (i : ℕ) :
    UniqueKeys (Attempt.wonStep p) (σ.step p site (.evalStep i)).attempts := by
  simp only [World.step]
  split
  · next token device code phase challenge step checked hi =>
    split
    · next hmargin =>
      apply h.steps.set
      intro k hk j b hj hb
      simp only [Attempt.wonStep] at hk
      split at hk
      · next hreply =>
        obtain rfl := Option.some.inj hk
        have hheld := (h.ok.attempts b (List.mem_of_getElem? hj)).stepWon _ _ hb
        obtain ⟨c, hc, -, -, hhi⟩ := (h.ok.attempts _ (List.mem_of_getElem? hi)).stepSent checked rfl
        obtain rfl := Option.some.inj hc
        have hlt := lt_of_step hhi hmargin
        exact absurd (Flight.replied.inj hreply)
          (cacheAdd_refused (by decide) hheld (by omega))
      · cases hk
    · exact h.steps
  · exact h.steps

theorem World.SingleUse.step_tokens (h : σ.SingleUse p) (action : Action) :
    UniqueKeys Attempt.wonToken (σ.step p site action).attempts := by
  cases action with
  | prepare freshUser backend device code token =>
    simp only [World.step]
    split
    · next a ha => exact h.tokens.append (prepareMfa_won ha).1
    · exact h.tokens
  | evalChallenge i => exact h.evalChallenge_tokens i
  | evalStep i =>
    simp only [World.step]
    split
    · next hi =>
      split
      · exact h.tokens.set_of_imp hi fun _ hk => hk
      · exact h.tokens
    · exact h.tokens
  | challengeReply i =>
    exact World.update_unique h.tokens i fun a _ => (a.challengeReply_wonToken _ ▸ ·)
  | stepReply i => exact World.update_unique h.tokens i fun a _ => ((a.stepReply_won (p := p)).1 ▸ ·)
  | giveUp i => exact World.update_unique h.tokens i fun a _ => ((a.giveUp_won (p := p)).1 ▸ ·)
  | sign | budget =>
    simp only [World.step]
    split <;> exact h.tokens
  | check | migrate | admission | advance => exact h.tokens

theorem World.SingleUse.step_steps (h : σ.SingleUse p) (action : Action) :
    UniqueKeys (Attempt.wonStep p) (σ.step p site action).attempts := by
  cases action with
  | prepare freshUser backend device code token =>
    simp only [World.step]
    split
    · next a ha => exact h.steps.append (prepareMfa_won ha).2
    · exact h.steps
  | evalChallenge i =>
    simp only [World.step]
    split
    · next hi =>
      split
      · exact h.steps.set_of_imp hi fun _ hk => hk
      · exact h.steps
    · exact h.steps
  | evalStep i => exact h.evalStep_steps i
  | challengeReply i => exact World.update_unique h.steps i fun a _ => Attempt.challengeReply_wonStep
  | stepReply i => exact World.update_unique h.steps i fun a _ => (a.stepReply_won.2 ▸ ·)
  | giveUp i => exact World.update_unique h.steps i fun a _ => (a.giveUp_won.2 ▸ ·)
  | sign | budget =>
    simp only [World.step]
    split <;> exact h.steps
  | check | migrate | admission | advance => exact h.steps

theorem World.SingleUse.step (h : σ.SingleUse p) (action : Action) :
    (σ.step p site action).SingleUse p := by
  have heff := step_effect p site σ action
  exact ⟨h.ok.step (fun _ _ => heff.held rfl) (fun _ _ => heff.held rfl)
    (claimsWon_held p site σ action), h.step_tokens action, h.step_steps action⟩

theorem World.after_singleUse (store : Store Key) (actions : List Action) :
    (World.after p site ⟨store, fun _ => none, []⟩ actions).SingleUse p := by
  induction actions with
  | nil => exact ⟨⟨by simp [World.after], by simp [World.after]⟩, uniqueKeys_nil, uniqueKeys_nil⟩
  | cons action earlier ih => exact ih.step action

end Steps

/-- Whatever the store held before the first token was signed, no token is accepted by two
calls, and no time step of one factor is. -/
theorem mfa_single_use (p : Primitives) (site : Admission.Site) (store : Store Key)
    (actions : List Action) :
    let σ := World.after p site ⟨store, fun _ => none, []⟩ actions
    (∀ token, σ.attempts.countP (Attempt.accepts token) ≤ 1) ∧
    (∀ m c, σ.attempts.countP (Attempt.acceptsStep p m c) ≤ 1) := by
  intro σ
  have h : σ.SingleUse p := World.after_singleUse store actions
  constructor
  · intro token
    exact h.tokens.countP_le_one fun a ha hacc => (h.ok.attempts a ha).accepts hacc
  · intro m c
    exact h.steps.countP_le_one fun a ha hacc => (h.ok.attempts a ha).acceptsStep hacc

def sampleNonce : Bytes := List.replicate 43 'n'

/-- The same token and the same code submitted twice, newest action first. -/
def sampleReplay : List Action :=
  let prepare : Action :=
    .prepare sampleAccount (some localBackend) (some (.totp 1 "s".toList)) (some "2".toList) "t".toList
  [.challengeReply 1, .evalChallenge 1, prepare,
    .stepReply 0, .evalStep 0, .challengeReply 0, .evalChallenge 0, prepare,
    .sign "t".toList 1 localBackend "h".toList sampleNonce]

def sampleSite : Admission.Site := ⟨"0a".toList, "f".toList, {}⟩

def sampleStart : Store Key :=
  Admission.freshStore sampleSite 70000 0 ⟨List.replicate 32 'a', by simp, by decide⟩

/-- The second submission is refused. -/
example : (World.after samplePrimitives sampleSite ⟨sampleStart, fun _ => none, []⟩
    sampleReplay).attempts.map Attempt.phase = [.returned, .rejected] := by
  decide

end Operator
