import AzdSanta.Redis.Script

/-! Single-use claims on keys that expire. A claim is `SET NX EX`; it is exclusive for
as long as every rival is evaluated no later than some deadline that the winner's
expiry reaches. -/
namespace Redis
variable {K : Type} {s : Store K} {k : K} {deadline : ℕ}

/-- The key is taken until `deadline` at least, whoever took it. -/
def Store.Held (s : Store K) (k : K) (deadline : ℕ) : Prop :=
  ∃ entry, s.data k = some entry ∧ ∀ e, entry.expireAt = some e → deadline ≤ e

theorem Store.Held.congr {t : Store K} (h : s.Held k deadline) (hd : t.data k = s.data k) :
    t.Held k deadline := by
  obtain ⟨entry, hentry, hle⟩ := h
  exact ⟨entry, hd.trans hentry, hle⟩

/-- Up to the deadline the key is seen. -/
theorem Store.Held.exist (h : s.Held k deadline) (hn : s.now ≤ deadline) : s.exist k = true := by
  obtain ⟨entry, hentry, hle⟩ := h
  have hlive : entry.live s.now = true := Entry.live_iff.mpr fun e he => hn.trans (hle e he)
  simp [Store.exist, Store.find, hentry, hlive]

variable [DecidableEq K]

theorem Store.held_write (s : Store K) (k : K) (v : Value) {e : ℕ} (h : deadline ≤ e) :
    (s.write k (some ⟨v, some e⟩)).Held k deadline := by
  refine ⟨⟨v, some e⟩, by simp [Store.write_data], ?_⟩
  intro t ht
  obtain rfl := Option.some.inj ht
  exact h

theorem Store.Held.refused {v : Bytes} {seconds : ℕ} (h : s.Held k deadline)
    (hn : s.now ≤ deadline) (hs : seconds ≠ 0) :
    (Script.setNxEx k v seconds).run s = (.ok false, s) := by
  rw [Script.setNxEx_run k v hs, if_pos (h.exist hn)]

/-- No later claim, on this key or another, shortens a claim. -/
theorem Store.Held.setNxEx {k' : K} {v : Bytes} {seconds : ℕ} (h : s.Held k deadline)
    (hs : seconds ≠ 0) : ((Script.setNxEx k' v seconds).run s).2.Held k deadline := by
  rw [Script.setNxEx_run k' v hs]
  split
  · exact h
  next hfree =>
  by_cases hk : k = k'
  · subst hk
    have hpast : deadline < s.now := by
      by_contra hle
      exact hfree (h.exist (by omega))
    exact Store.held_write s k _ (by omega)
  · exact h.congr (by simp [Store.write_data, hk])

theorem Store.held_of_claim {v : Bytes} {seconds : ℕ} (hs : seconds ≠ 0)
    (hwon : ((Script.setNxEx k v seconds).run s).1 = .ok true)
    (hd : deadline ≤ s.now + seconds * 1000) :
    ((Script.setNxEx k v seconds).run s).2.Held k deadline := by
  rw [Script.setNxEx_run k v hs] at hwon ⊢
  split at hwon
  · cases hwon
  next hfree =>
  rw [if_neg hfree]
  exact Store.held_write s k _ hd

end Redis
