import Mathlib.Data.List.Count
import Mathlib.Tactic

/-! Fixed-window counters. A counter opens with its first hit, lives for one window
and only counts while it lives; nothing extends it. Successive windows of one
counter therefore stand more than one window apart, and an interval of one window
meets at most two of them. -/
namespace FixedWindow

/-- One counted call, with the opening time of the window that counted it. -/
structure Hit where
  birth : ℕ
  time : ℕ
  deriving DecidableEq

/-- An absent counter, or its count and its last instant. -/
abbrev Cell := Option (ℕ × ℕ)

def Cell.count : Cell → ℕ
  | none => 0
  | some (n, _) => n

/-- Count one hit: open a window, or stay in the one that is open. -/
def Cell.bump (width now : ℕ) : Cell → ℕ × ℕ
  | none => (1, now + width)
  | some (n, e) => (n + 1, e)

structure Log (width max : ℕ) (hits : List Hit) : Prop where
  within : ∀ h ∈ hits, h.birth ≤ h.time ∧ h.time ≤ h.birth + width
  apart : ∀ g ∈ hits, ∀ h ∈ hits,
    g.birth = h.birth ∨ g.birth + width < h.birth ∨ h.birth + width < g.birth
  bounded : ∀ b, hits.countP (fun h => h.birth = b) ≤ max

private theorem countP_or_le {α : Type*} (p q : α → Prop) [DecidablePred p] [DecidablePred q]
    (xs : List α) : xs.countP (fun x => p x ∨ q x) ≤
      xs.countP (fun x => p x) + xs.countP (fun x => q x) := by
  induction xs with
  | nil => simp
  | cons x xs ih =>
    simp only [List.countP_cons, decide_eq_true_eq]
    by_cases hp : p x <;> by_cases hq : q x <;>
      simp only [hp, hq, or_true, or_false, if_true, if_false] <;> omega

/-- Three windows that are apart cannot all meet one interval of their own width. -/
theorem Log.two_births {width max a : ℕ} {hits : List Hit} (hl : Log width max hits)
    {f g h : Hit} (hf : f ∈ hits) (hg : g ∈ hits) (hh : h ∈ hits)
    (hfa : a ≤ f.time ∧ f.time ≤ a + width) (hga : a ≤ g.time ∧ g.time ≤ a + width)
    (hha : a ≤ h.time ∧ h.time ≤ a + width) (hfg : f.birth ≠ g.birth) :
    h.birth = f.birth ∨ h.birth = g.birth := by
  have wf := hl.within f hf
  have wg := hl.within g hg
  have wh := hl.within h hh
  have afg := hl.apart f hf g hg
  have ahf := hl.apart h hh f hf
  have ahg := hl.apart h hh g hg
  omega

/-- An interval of one window holds at most two windows' worth of hits. -/
theorem Log.countP_interval_le {width max : ℕ} {hits : List Hit} (hl : Log width max hits) (a : ℕ) :
    hits.countP (fun h => a ≤ h.time ∧ h.time ≤ a + width) ≤ 2 * max := by
  by_cases hone : ∃ b, ∀ h ∈ hits, a ≤ h.time ∧ h.time ≤ a + width → h.birth = b
  · obtain ⟨b, hb⟩ := hone
    have hle : hits.countP (fun h => a ≤ h.time ∧ h.time ≤ a + width) ≤
        hits.countP (fun h => h.birth = b) := by
      apply List.countP_mono_left
      intro h hh hp
      simpa using hb h hh (by simpa using hp)
    have := hl.bounded b
    omega
  · push Not at hone
    obtain ⟨f, hf, hfa, -⟩ := hone 0
    obtain ⟨g, hg, hga, hgf⟩ := hone f.birth
    have hle : hits.countP (fun h => a ≤ h.time ∧ h.time ≤ a + width) ≤
        hits.countP (fun h => h.birth = f.birth ∨ h.birth = g.birth) := by
      apply List.countP_mono_left
      intro h hh hp
      simpa using hl.two_births hf hg hh hfa hga (by simpa using hp) (Ne.symm hgf)
    have hsplit := countP_or_le (fun h : Hit => h.birth = f.birth)
      (fun h => h.birth = g.birth) hits
    have := hl.bounded f.birth
    have := hl.bounded g.birth
    omega

/-- The counter's current content agrees with the hits it has counted so far. -/
structure Tracks (width max now : ℕ) (cell : Cell) (hits : List Hit) : Prop
    extends Log width max hits where
  past : ∀ h ∈ hits, h.time ≤ now
  live : ∀ n e, cell = some (n, e) → now ≤ e ∧ ∃ b, e = b + width ∧ b ≤ now ∧ n ≤ max ∧
    hits.countP (fun h => h.birth = b) = n ∧ ∀ h ∈ hits, h.birth = b ∨ h.birth + width < b
  dead : cell = none → ∀ h ∈ hits, h.birth + width < now

theorem Tracks.start (width max now : ℕ) : Tracks width max now none [] where
  within := by simp
  apart := by simp
  bounded := by simp
  past := by simp
  live := by simp
  dead := by simp

/-- Time passes: a cell whose last instant is over is gone. -/
theorem Tracks.advance {width max now later : ℕ} {cell : Cell} {hits : List Hit}
    (ht : Tracks width max now cell hits) (hn : now ≤ later) :
    Tracks width max later (cell.filter fun c => later ≤ c.2) hits where
  toLog := ht.toLog
  past h hh := (ht.past h hh).trans hn
  live n e hc := by
    obtain ⟨hcell, he⟩ := Option.filter_eq_some_iff.mp hc
    obtain ⟨-, b, hb, hbn, hrest⟩ := ht.live n e hcell
    exact ⟨by simpa using he, b, hb, hbn.trans hn, hrest⟩
  dead hc h hh := by
    rcases hcell : cell with _ | ⟨n, e⟩
    · exact (ht.dead hcell h hh).trans_le hn
    · obtain ⟨-, b, hb, -, -, -, hall⟩ := ht.live n e hcell
      have he : e < later := by
        simpa [hcell, Option.filter_eq_none_iff] using hc
      rcases hall h hh with hb' | hb' <;> omega

/-- The first hit after the last window is over opens a new one. -/
theorem Tracks.opened {width max now : ℕ} {hits : List Hit}
    (ht : Tracks width max now none hits) (hmax : 1 ≤ max) :
    Tracks width max now (some (1, now + width)) (⟨now, now⟩ :: hits) := by
  have hdead := ht.dead rfl
  have hnone : hits.countP (fun h => h.birth = now) = 0 := by
    rw [List.countP_eq_zero]
    intro h hh hb
    have := hdead h hh
    simp only [decide_eq_true_eq] at hb
    omega
  refine ⟨⟨?_, ?_, ?_⟩, ?_, ?_, ?_⟩
  · simpa using ht.within
  · simp only [List.mem_cons, forall_eq_or_imp, true_or, true_and]
    refine ⟨fun h hh => ?_, fun g hg => ⟨?_, fun h hh => ht.apart g hg h hh⟩⟩
    · have := hdead h hh
      omega
    · have := hdead g hg
      omega
  · intro b
    rw [List.countP_cons]
    by_cases hb : now = b
    · subst hb
      simp only [hnone, decide_true, if_true]
      omega
    · simpa [hb] using ht.bounded b
  · simpa using ht.past
  · intro n e hc
    obtain ⟨rfl, rfl⟩ := Prod.mk.inj (Option.some.inj hc)
    refine ⟨by omega, now, rfl, le_rfl, hmax, ?_, ?_⟩
    · simp [hnone]
    · simp only [List.mem_cons, forall_eq_or_imp, true_or, true_and]
      exact fun h hh => Or.inr (hdead h hh)
  · simp

/-- A hit inside the current window is counted and leaves its last instant alone. -/
theorem Tracks.counted {width max now n e : ℕ} {hits : List Hit}
    (ht : Tracks width max now (some (n, e)) hits) (hn : n < max) :
    Tracks width max now (some (n + 1, e)) (⟨e - width, now⟩ :: hits) := by
  obtain ⟨hne, b, rfl, hbn, -, hcount, hall⟩ := ht.live n e rfl
  have hsub : b + width - width = b := by omega
  rw [hsub]
  refine ⟨⟨?_, ?_, ?_⟩, ?_, ?_, ?_⟩
  · simp only [List.mem_cons, forall_eq_or_imp]
    exact ⟨⟨hbn, hne⟩, ht.within⟩
  · simp only [List.mem_cons, forall_eq_or_imp, true_or, true_and]
    refine ⟨fun h hh => ?_, fun g hg => ⟨?_, fun h hh => ht.apart g hg h hh⟩⟩
    · rcases hall h hh with hb | hb <;> omega
    · rcases hall g hg with hb | hb <;> omega
  · intro c
    rw [List.countP_cons]
    by_cases hc : b = c
    · subst hc
      simp only [hcount, decide_true, if_true]
      omega
    · simpa [hc] using ht.bounded c
  · simpa using ht.past
  · intro n' e' hc
    obtain ⟨rfl, rfl⟩ := Prod.mk.inj (Option.some.inj hc)
    refine ⟨hne, b, rfl, hbn, hn, ?_, ?_⟩
    · simp [hcount]
    · simp only [List.mem_cons, forall_eq_or_imp, true_or, true_and]
      exact hall
  · simp

/-- Either way, a hit below the limit is recorded under the window that counts it. -/
theorem Tracks.bump {width max now : ℕ} {cell : Cell} {hits : List Hit}
    (ht : Tracks width max now cell hits) (hn : cell.count < max) :
    Tracks width max now (some (cell.bump width now))
      (⟨(cell.bump width now).2 - width, now⟩ :: hits) := by
  rcases cell with _ | ⟨n, e⟩
  · have hopen := ht.opened (Nat.one_le_of_lt hn)
    simpa only [Cell.bump, Nat.add_sub_cancel] using hopen
  · exact ht.counted hn

end FixedWindow
