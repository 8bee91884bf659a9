import AzdSanta.Operator.SingleUse
import Mathlib.Data.List.TakeWhile

/-! Replacement of the security store. Everything the old store remembered is gone; the
hold that `migrate` records outlasts every token, time step and budget window of before. -/
namespace Operator
open Redis SecurityStore

/-- A printed ready time is read back as itself or not at all. -/
theorem parseMarker_markerText {storeId : Bytes} {ready n : ℕ}
    (h : parseMarker (markerText storeId ready) = some (storeId, n)) : n = ready := by
  unfold parseMarker markerText at h
  split at h
  · next rest hdrop =>
    simp only [Option.ite_none_right_eq_some, Option.map_eq_some_iff, Prod.mk.injEq] at h
    obtain ⟨-, m, hm, hid, rfl⟩ := h
    -- The identity read is the whole identity, so it holds no colon.
    have hcolon : ∀ c ∈ storeId, (c ≠ ':') = true := by
      intro c hc
      rw [← hid] at hc
      simpa using List.mem_takeWhile_imp hc
    rw [List.dropWhile_append_of_pos (by simpa using hcolon)] at hdrop
    simp only [ne_eq, decide_not, List.dropWhile_cons, decide_true, Bool.not_true,
      Bool.false_eq_true, if_false, List.cons.injEq, true_and] at hdrop
    subst hdrop
    have hdigits : Lua.matchAll Lua.digit (Lua.tostring ready) = true := by
      unfold Lua.tonumber at hm
      split at hm
      · assumption
      · cases hm
    rw [Lua.tostring_of_lt (Lua.matchAll_tostring hdigits), Lua.tonumber_toDigits] at hm
    exact (Option.some.inj hm).symm
  · cases h

/-- Every marker of this deployment in the store is not ready before `ready`. -/
def HoldsUntil (storeId : Bytes) (ready : ℕ) (s : Store Key) : Prop :=
  ∀ v e n, s.find .marker = some ⟨.str v, e⟩ → parseMarker v = some (storeId, n) → ready ≤ n

section Hold
variable {site : Admission.Site} {s t : Store Key} {ready : ℕ}

theorem HoldsUntil.guard (h : HoldsUntil site.storeId ready s)
    (hguard : storeGuard site.storeId s = .ok ()) : ready ≤ s.seconds := by
  obtain ⟨v, n, hget, hparse, hn⟩ := storeGuard_eq_ok.mp hguard
  obtain ⟨e, hfind⟩ := Store.get_eq_some hget
  exact (h v e n hfind hparse).trans hn

theorem HoldsUntil.congr (h : HoldsUntil site.storeId ready s)
    (hfind : ∀ entry, t.find .marker = some entry → s.find .marker = some entry) :
    HoldsUntil site.storeId ready t :=
  fun v e n hv hparse => h v e n (hfind _ hv) hparse

/-- Only `migrate` writes a marker, and it adds the whole delay. -/
theorem StoreEffect.holds (heff : StoreEffect site s t) (h : HoldsUntil site.storeId ready s)
    (hready : ready ≤ s.seconds + migrationDelay) : HoldsUntil site.storeId ready t := by
  cases heff with
  | same => exact h
  | claim k v hs hk hguard =>
    rw [Script.setNxEx_run k v hs]
    split
    · exact h
    · refine h.congr fun entry hentry => ?_
      rwa [Store.write_find_ne] at hentry
      rintro rfl
      cases hk
  | opened k v hk hfree | counted k v v' e hk hfind =>
    refine h.congr fun entry hentry => ?_
    rwa [Store.write_find_ne] at hentry
    rintro rfl
    cases hk
  | migrated hfree =>
    intro v e n hv hparse
    cases Store.write_find_eq hv
    rw [parseMarker_markerText hparse]
    exact hready
  | admission data => exact h
  | advance ms => exact h.congr fun entry => Store.find_of_advance

end Hold

/-- Every budget window ends within `challengeSeconds`. -/
def BudgetsBounded (s : Store Key) : Prop :=
  ∀ k entry, budgetKey k → s.find k = some entry →
    ∃ e, entry.expireAt = some e ∧ e ≤ s.now + challengeSeconds * 1000

theorem StoreEffect.budgets {site : Admission.Site} {s t : Store Key} (heff : StoreEffect site s t)
    (h : BudgetsBounded s) : BudgetsBounded t := by
  intro k entry hk hentry
  cases heff with
  | same => exact h k entry hk hentry
  | claim k' v hs hk' hguard =>
    rw [Script.setNxEx_run k' v hs] at hentry ⊢
    split at hentry
    · next hex =>
      rw [if_pos hex]
      exact h k entry hk hentry
    · next hex =>
      rw [if_neg hex]
      rw [Store.write_find_ne] at hentry
      · exact h k entry hk hentry
      · rintro rfl
        cases k <;> simp_all [budgetKey, claimKey]
  | opened k' v hk' hfree =>
    by_cases hkk : k = k'
    · subst hkk
      rw [Store.write_find_eq hentry]
      exact ⟨_, rfl, le_rfl⟩
    · rw [Store.write_find_ne _ _ hkk] at hentry
      exact h k entry hk hentry
  | counted k' v v' e hk' hfind =>
    by_cases hkk : k = k'
    · subst hkk
      obtain ⟨e', he', hle⟩ := h k _ hk hfind
      rw [Store.write_find_eq hentry]
      exact ⟨e', he', hle⟩
    · rw [Store.write_find_ne _ _ hkk] at hentry
      exact h k entry hk hentry
  | migrated hfree =>
    rw [Store.write_find_ne] at hentry
    · exact h k entry hk hentry
    · rintro rfl
      cases hk
  | admission data =>
    have hsame : admissionKey k = false := by cases k <;> simp_all [budgetKey, admissionKey]
    have hfind : s.find k = some entry := by
      simpa [Store.find, hsame] using hentry
    exact h k entry hk hfind
  | advance ms =>
    obtain ⟨e, he, hle⟩ := h k entry hk (Store.find_of_advance hentry)
    exact ⟨e, he, hle.trans (Nat.add_le_add_right (Nat.le_add_right _ _) _)⟩

section Eras
variable {p : Primitives} {site : Admission.Site} {σ : World}

/-- Time steps accepted so far have begun. -/
theorem World.after_past (store : Store Key) (actions : List Action) :
    let σ := World.after p site ⟨store, fun _ => none, []⟩ actions
    σ.Ok p (fun _ _ => True) (fun _ c => 30000 * c ≤ σ.store.now) := by
  intro σ
  induction actions with
  | nil => exact ⟨by simp [World.after, σ], by simp [World.after, σ]⟩
  | cons action earlier ih =>
    have hnow := (step_effect p site (World.after p site ⟨store, fun _ => none, []⟩ earlier) action).now_le
    refine ih.step (fun _ _ h => h) (fun _ c h => h.trans (by exact_mod_cast hnow)) ?_
    exact ⟨fun _ _ _ _ _ _ _ _ _ _ => trivial,
      fun _ _ c _ _ _ hlo _ _ _ => hlo.trans (by exact_mod_cast hnow)⟩

/-- A signed token keeps its payload. -/
theorem World.evalChallenge_issued (σ : World) (i : ℕ) :
    (σ.step p site (.evalChallenge i)).issued = σ.issued := by
  simp only [World.step]
  split
  · split <;> rfl
  · rfl

theorem World.evalStep_issued (σ : World) (i : ℕ) : (σ.step p site (.evalStep i)).issued = σ.issued := by
  simp only [World.step]
  split
  · split <;> rfl
  · rfl

theorem World.step_issued_kept {σ : World} {token : Bytes} {d : Signed} (h : σ.issued token = some d)
    (action : Action) : (σ.step p site action).issued token = some d := by
  cases action with
  | sign token' userId authBackend azdAuthHash azdNonce =>
    simp only [World.step]
    split
    · next hnew =>
      simp only
      rw [Function.update_of_ne, h]
      rintro rfl
      simp [h] at hnew
    · exact h
  | prepare | budget =>
    simp only [World.step]
    split <;> exact h
  | evalChallenge i => rw [World.evalChallenge_issued, h]
  | evalStep i => rw [World.evalStep_issued, h]
  | challengeReply | stepReply | giveUp =>
    simp only [World.step, World.update]
    split <;> exact h
  | check | migrate | admission | advance => exact h

theorem World.after_issued {start : World} {token : Bytes} {d : Signed}
    (h : start.issued token = some d) (actions : List Action) :
    (World.after p site start actions).issued token = some d := by
  induction actions with
  | nil => exact h
  | cons action earlier ih => exact World.step_issued_kept ih action

theorem World.after_budgets {start : World} (h : BudgetsBounded start.store)
    (actions : List Action) : BudgetsBounded (World.after p site start actions).store := by
  induction actions with
  | nil => exact h
  | cons action earlier ih => exact (step_effect p site _ action).budgets ih

/-- The world after the store was replaced in second `stopped`. -/
structure World.Held (p : Primitives) (site : Admission.Site) (stopped : ℕ) (σ : World) : Prop where
  marker : HoldsUntil site.storeId (stopped + migrationDelay) σ.store
  clock : stopped ≤ σ.store.seconds
  ok : σ.Ok p (fun _ d => stopped < d.timestamp) (fun _ c => stopped < 30 * c)

/-- A claim is won only past the hold, so its token or step is younger than the stop. -/
theorem World.Held.claimsWon {stopped : ℕ} (h : σ.Held p site stopped) (action : Action) :
    ClaimsWon p site σ action (fun _ d => stopped < d.timestamp) (fun _ c => stopped < 30 * c) := by
  have hadmitted {k : Key} {seconds : ℕ}
      (hwon : ((cacheAdd site.storeId k seconds).run σ.store).1 = .ok true) :
      stopped + 360 ≤ σ.store.now / 1000 := by
    rcases storeOperation_run site.storeId (Script.setNxEx k "1".toList seconds) σ.store with
      ⟨e, -, hrun⟩ | ⟨hguard, -⟩
    · rw [cacheAdd, hrun] at hwon
      cases hwon
    · exact h.marker.guard hguard
  constructor
  · intro i a d _ _ _ _ hlt hwon _
    have hlate := hadmitted hwon
    rw [Nat.add_mul] at hlt
    omega
  · intro i a c _ _ _ _ hlt hwon _
    have hlate := hadmitted hwon
    omega

theorem World.Held.step {stopped : ℕ} (h : σ.Held p site stopped) (action : Action) :
    (σ.step p site action).Held p site stopped := by
  have heff := step_effect p site σ action
  refine ⟨heff.holds h.marker (Nat.add_le_add_right h.clock _), ?_, ?_⟩
  · exact h.clock.trans (Nat.div_le_div_right heff.now_le)
  · exact h.ok.step (fun _ _ h => h) (fun _ _ h => h) (h.claimsWon action)

theorem World.Held.after {stopped : ℕ} {start : World} (h : start.Held p site stopped)
    (actions : List Action) : (World.after p site start actions).Held p site stopped := by
  induction actions with
  | nil => exact h
  | cons action earlier ih => exact ih.step action

end Eras

/-- The calls of before are dead with their processes; signed tokens stay valid. -/
def World.replaced (σ : World) (store : Store Key) : World := ⟨store, σ.issued, []⟩

/-- The store is replaced after the run `before`, by any store without a marker of this
deployment. Nothing accepted before is accepted in any later run, whenever and however often
`migrate` runs in it; no budget window of before is open once an operation is admitted; and
no operation without a ready marker of this deployment writes. -/
theorem replacement_hold (p : Primitives) (site : Admission.Site) {start replacement : Store Key}
    (before later : List Action) (hbudgets : BudgetsBounded start)
    (hclock : (World.after p site ⟨start, fun _ => none, []⟩ before).store.now ≤ replacement.now)
    (hmarker : ∀ v e n, replacement.find .marker = some ⟨.str v, e⟩ →
      parseMarker v ≠ some (site.storeId, n)) :
    let σ := World.after p site ⟨start, fun _ => none, []⟩ before
    let τ := World.after p site (σ.replaced replacement) later
    (∀ token, ∀ a ∈ σ.attempts, a.accepts token → ∀ b ∈ τ.attempts, b.accepts token = false) ∧
    (∀ m c, ∀ a ∈ σ.attempts, a.acceptsStep p m c → ∀ b ∈ τ.attempts, b.acceptsStep p m c = false) ∧
    (storeGuard site.storeId τ.store = .ok () → ∀ k entry, budgetKey k →
      σ.store.find k = some entry → ∃ e, entry.expireAt = some e ∧ e < τ.store.now) ∧
    (∀ (α : Type) (script : Script Key α) (s : Store Key),
      (s.find .marker = none ∨
        (∃ v e, s.find .marker = some ⟨.str v, e⟩ ∧
          ∀ n, parseMarker v = some (site.storeId, n) → s.seconds < n)) →
      ∃ e, (storeOperation site.storeId script).run s = (.error e, s)) := by
  intro σ τ
  have hpast : σ.Ok p (fun _ _ => True) (fun _ c => 30000 * c ≤ σ.store.now) :=
    World.after_past start before
  have hheld : τ.Held p site σ.store.seconds := by
    refine World.Held.after ⟨?_, Nat.div_le_div_right hclock, ?_⟩ later
    · intro v e n hv hparse
      exact absurd hparse (hmarker v e n hv)
    · refine ⟨fun token d hd => ?_, by simp [World.replaced]⟩
      exact (hpast.issued token d hd).trans (Nat.div_le_div_right hclock)
  refine ⟨?_, ?_, ?_, ?_⟩
  · intro token a ha hacc b hb
    rw [← Bool.not_eq_true]
    intro hacc'
    obtain ⟨d, hd, -⟩ := (hpast.attempts a ha).won token ((hpast.attempts a ha).accepts hacc)
    obtain ⟨d', hd', hlate⟩ :=
      (hheld.ok.attempts b hb).won token ((hheld.ok.attempts b hb).accepts hacc')
    have hsame : τ.issued token = some d :=
      @World.after_issued p site (σ.replaced replacement) _ _ hd later
    obtain rfl := Option.some.inj (hsame.symm.trans hd')
    exact absurd (hpast.issued token d hd) (Nat.not_le.mpr hlate)
  · intro m c a ha hacc b hb
    rw [← Bool.not_eq_true]
    intro hacc'
    have hearly := (hpast.attempts a ha).stepWon m c ((hpast.attempts a ha).acceptsStep hacc)
    have hlate := (hheld.ok.attempts b hb).stepWon m c ((hheld.ok.attempts b hb).acceptsStep hacc')
    unfold Store.seconds at hlate
    omega
  · intro hguard k entry hk hentry
    have hbounded : BudgetsBounded σ.store := World.after_budgets hbudgets before
    obtain ⟨e, he, hle⟩ := hbounded k entry hk hentry
    refine ⟨e, he, ?_⟩
    have hlate := hheld.marker.guard hguard
    have hwindow : challengeSeconds * 1000 = 300000 := rfl
    have hdelay : migrationDelay = 360 := rfl
    rw [hwindow] at hle
    rw [hdelay] at hlate
    unfold Store.seconds at hlate
    omega
  · intro α script s hs
    rcases storeOperation_run site.storeId script s with ⟨e, -, hrun⟩ | ⟨hguard, -⟩
    · exact ⟨e, hrun⟩
    · obtain ⟨v, n, hget, hparse, hn⟩ := storeGuard_eq_ok.mp hguard
      obtain ⟨e, hfind⟩ := Store.get_eq_some hget
      rcases hs with hnone | ⟨v', e', hfind', hready⟩
      · simp [hnone] at hfind
      · rw [hfind'] at hfind
        cases hfind
        exact absurd hn (Nat.not_le.mpr (hready n hparse))

/-- The old token and code are tried again after a migration and its hold, newest first. -/
def sampleLater : List Action :=
  [.evalChallenge 0,
    .prepare sampleAccount (some localBackend) (some (.totp 1 "s".toList)) (some "15".toList) "u".toList,
    .sign "u".toList 1 localBackend "h".toList sampleNonce,
    .prepare sampleAccount (some localBackend) (some (.totp 1 "s".toList)) (some "2".toList) "t".toList,
    .advance 360000, .migrate true]

theorem sampleStart_budgets : BudgetsBounded sampleStart := by
  intro k entry hk hentry
  cases k with
  | verify user => cases hentry
  | password digest => cases hentry
  | _ => cases hk

theorem replacement_hold_sample :
    let σ := World.after samplePrimitives sampleSite ⟨sampleStart, fun _ => none, []⟩ sampleReplay
    let τ := World.after samplePrimitives sampleSite (σ.replaced (Store.empty 90000)) sampleLater
    (σ.attempts.any fun a => a.accepts "t".toList) = true ∧
    storeGuard sampleSite.storeId τ.store = .ok () ∧
    ∀ token, ∀ a ∈ σ.attempts, a.accepts token → ∀ b ∈ τ.attempts, b.accepts token = false :=
  ⟨by decide, by decide, (replacement_hold samplePrimitives sampleSite sampleReplay sampleLater
    sampleStart_budgets (by decide) (by intro v e n h; cases h)).1⟩

end Operator
