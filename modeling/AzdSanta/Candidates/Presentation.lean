import AzdSanta.Candidates.Registration

/-! The candidate depends on which events there are, not on how the array presents them. -/
namespace Candidates
open Python PowerShell Checks

variable {s : Shell} {p : Parameters}

section Acceptance

/-- `ReviewExpiresAt` is after `EvaluationTime` and within 30 days. -/
def Parameters.InWindow (p : Parameters) : Prop :=
  ¬ (p.reviewExpiresAt ≤ p.evaluationTime ∨ 30 * 864000000000 < p.reviewExpiresAt - p.evaluationTime)

theorem events_eq_ok {blanks : List Text} {xs ys : List Element} :
    events (.array blanks xs) = .ok ys ↔ (1 ≤ xs.length ∧ xs.length ≤ 256) ∧ xs = ys := by
  rw [events]
  by_cases h : 1 ≤ xs.length ∧ xs.length ≤ 256
  · rw [if_pos h]
    simp [h]
  · rw [if_neg h]
    simp [h]

theorem canonicalBytes_eq_ok {e : Element} {raw : Bytes} : canonicalBytes e = .ok raw ↔ canonical e = .ok raw := by
  unfold canonicalBytes
  cases canonical e <;> simp [Except.mapError]

/-- The array is written when each of its events is. -/
theorem canonical_array_ok {blanks : List Text} {xs : List Element} :
    (∃ raw, canonical (.array blanks xs) = .ok raw) ↔ ∀ x ∈ xs, ∃ t, write 999 x = .ok t := by
  constructor
  · rintro ⟨raw, hraw⟩ x hx
    obtain ⟨t, ht, -⟩ := bind_eq_ok.mp hraw
    obtain ⟨room, parts, hroom, hparts, -⟩ := write_array ht
    obtain rfl : 999 = room := by omega
    obtain ⟨t, -, ht⟩ := exists_of_mem_left (mapM_eq_ok.mp hparts) hx
    exact ⟨t, ht⟩
  · intro h
    obtain ⟨parts, hparts⟩ := mapM_total h
    exact ⟨(91 :: (joined parts ++ [93])).map UInt8.ofNat, by rw [canonical, write, hparts]; rfl⟩

/-- What a run that makes a candidate has been through. -/
theorem newSantaRuleCandidate_eq_ok {size : ℕ} {blanks : List Text} {xs : List Element} {out : List (List ℕ × Value)} :
    newSantaRuleCandidate s p ⟨size, .array blanks xs⟩ = .ok out ↔
      p.InWindow ∧ size ≤ 1048576 ∧ (∀ x ∈ xs, ∃ t, write 999 x = .ok t) ∧ (1 ≤ xs.length ∧ xs.length ≤ 256) ∧
      ∃ items registered, xs.mapM (inspect s p.evaluationTime) = .ok items ∧
        items.foldlM (add s) [] = .ok registered ∧ s.summarize p registered = .ok out := by
  unfold newSantaRuleCandidate
  by_cases hwindow : p.InWindow
  · rw [if_neg hwindow]
    by_cases hsize : size ≤ 1048576
    · rw [if_neg (show ¬ 1048576 < size by omega)]
      simp only [bind_eq_ok, canonicalBytes_eq_ok, events_eq_ok, registerAll_eq_ok]
      rw [← @canonical_array_ok blanks]
      constructor
      · rintro ⟨raw, hraw, ys, ⟨hlength, rfl⟩, registered, ⟨items, hitems, hadd⟩, hout⟩
        exact ⟨hwindow, hsize, ⟨raw, hraw⟩, hlength, items, registered, hitems, hadd, hout⟩
      · rintro ⟨-, -, ⟨raw, hraw⟩, hlength, items, registered, hitems, hadd, hout⟩
        exact ⟨raw, hraw, xs, ⟨hlength, rfl⟩, registered, ⟨items, hitems, hadd⟩, hout⟩
    · rw [if_pos (show 1048576 < size by omega)]
      simp [hsize]
  · rw [if_pos (by_contra hwindow)]
    simp [hwindow]

end Acceptance

section Copies
variable {items items' registered registered' : List Item} {xs ys : List Element}

/-- Entries of one id are one entry. -/
def Functional (items : List Item) : Prop := ∀ i ∈ items, ∀ j ∈ items, i.event.eventId = j.event.eventId → i = j

theorem Registered.mem_iff (h : Registered items registered) (hfunctional : Functional items) (i : Item) :
    i ∈ registered ↔ i ∈ items := by
  constructor
  · exact h.subset i
  · intro hi
    obtain ⟨j, hj, hid, -⟩ := h.covers i hi
    rw [hfunctional i hi j (h.subset j hj) hid.symm]
    exact hj

theorem Registered.perm (h : Registered items registered) (h' : Registered items' registered')
    (hfunctional : Functional items) (hmem : ∀ i, i ∈ items' ↔ i ∈ items) : registered'.Perm registered := by
  have hfunctional' : Functional items' := fun i hi j hj hid => hfunctional i ((hmem i).mp hi) j ((hmem j).mp hj) hid
  apply (List.perm_ext_iff_of_nodup (List.Nodup.of_map _ h'.unique) (List.Nodup.of_map _ h.unique)).mpr
  intro i
  rw [h.mem_iff hfunctional, h'.mem_iff hfunctional', hmem]

/-- The second loop reads the entries in the order of their ids. -/
theorem summarize_perm (hperm : registered'.Perm registered)
    (hunique : (registered.map fun i => i.event.eventId).Nodup) : s.summarize p registered' = s.summarize p registered := by
  have hsort := Sorting.insertionSort_eq_of_perm hperm ((hperm.map _).nodup_iff.mpr hunique)
  rw [Shell.summarize, Shell.summarize, hsort, hperm.length_eq]

/-- Inspected events without a collision are the same as soon as their ids and fingerprints are. -/
theorem functional_of_coherent (hfree : CollisionFree s xs)
    (hitems : xs.mapM (inspect s p.evaluationTime) = .ok items) (hcoherent : Coherent items) : Functional items := by
  intro i hi j hj hid
  obtain ⟨x, hx, hix⟩ := exists_of_mem_right (mapM_eq_ok.mp hitems) hi
  obtain ⟨y, hy, hjy⟩ := exists_of_mem_right (mapM_eq_ok.mp hitems) hj
  have hsame : Same x y := (fingerprint_eq_iff hfree hx hy hix hjy).mp (hcoherent i hi j hj hid)
  obtain ⟨hparsed, hunique⟩ := inspect_parsed hix
  have hinspect := inspect_same s p.evaluationTime hsame hparsed le_rfl hunique
  rw [hix, hjy] at hinspect
  exact Except.ok.inj hinspect

/-- An array with the same events makes the same candidate, whatever their order and number. -/
theorem newSantaRuleCandidate_copies {size size' : ℕ} {blanks blanks' : List Text} {out : List (List ℕ × Value)}
    (hfree : CollisionFree s xs) (hrun : newSantaRuleCandidate s p ⟨size, .array blanks xs⟩ = .ok out)
    (hcopies : ∀ y ∈ ys, y ∈ xs ∨ ∃ x ∈ xs, Same x y) (hall : ∀ x ∈ xs, x ∈ ys) (hlength : ys.length ≤ 256)
    (hsize : size' ≤ 1048576) : newSantaRuleCandidate s p ⟨size', .array blanks' ys⟩ = .ok out := by
  obtain ⟨hwindow, -, hwritten, hlength', items, registered, hitems, hadd, hout⟩ := newSantaRuleCandidate_eq_ok.mp hrun
  have hinspected : ∀ x ∈ xs, ∃ i ∈ items, inspect s p.evaluationTime x = .ok i := fun x hx =>
    exists_of_mem_left (mapM_eq_ok.mp hitems) hx
  -- a copy is inspected and written like its original
  have hcopy : ∀ y ∈ ys, ∃ x ∈ xs, inspect s p.evaluationTime y = inspect s p.evaluationTime x ∧
      write 999 y = write 999 x := by
    intro y hy
    rcases hcopies y hy with hx | ⟨x, hx, hsame⟩
    · exact ⟨y, hx, rfl, rfl⟩
    · obtain ⟨t, ht⟩ := hwritten x hx
      obtain ⟨i, -, hi⟩ := hinspected x hx
      obtain ⟨hparsed, hunique⟩ := inspect_parsed hi
      exact ⟨x, hx, (inspect_same s _ hsame hparsed le_rfl hunique).symm,
        (write_same hsame (write_parsed ht) le_rfl hunique).symm⟩
  have hwritten' : ∀ y ∈ ys, ∃ t, write 999 y = .ok t := by
    intro y hy
    obtain ⟨x, hx, -, hwrite⟩ := hcopy y hy
    obtain ⟨t, ht⟩ := hwritten x hx
    exact ⟨t, hwrite.trans ht⟩
  obtain ⟨items', hitems'⟩ : ∃ items', ys.mapM (inspect s p.evaluationTime) = .ok items' := by
    apply mapM_total
    intro y hy
    obtain ⟨x, hx, hinspect, -⟩ := hcopy y hy
    obtain ⟨i, -, hi⟩ := hinspected x hx
    exact ⟨i, hinspect.trans hi⟩
  have hmem (i : Item) : i ∈ items' ↔ i ∈ items := by
    constructor
    · intro hi
      obtain ⟨y, hy, hiy⟩ := exists_of_mem_right (mapM_eq_ok.mp hitems') hi
      obtain ⟨x, hx, hinspect, -⟩ := hcopy y hy
      obtain ⟨j, hj, hjx⟩ := hinspected x hx
      rw [hiy, hjx] at hinspect
      exact Except.ok.inj hinspect ▸ hj
    · intro hi
      obtain ⟨x, hx, hix⟩ := exists_of_mem_right (mapM_eq_ok.mp hitems) hi
      obtain ⟨j, hj, hjx⟩ := exists_of_mem_left (mapM_eq_ok.mp hitems') (hall x hx)
      rw [hix] at hjx
      exact Except.ok.inj hjx ▸ hj
  have hregistered : Registered items registered := by
    simpa using Registered.nil.addAll (by simpa using fingerprinted_of_mapM hitems) hadd
  have hfunctional := functional_of_coherent hfree hitems hregistered.coherent
  have hcoherent' : Coherent items' := fun i hi j hj hid =>
    hregistered.coherent i ((hmem i).mp hi) j ((hmem j).mp hj) hid
  obtain ⟨registered', hadd'⟩ := Registered.nil.total (by simpa using fingerprinted_of_mapM hitems')
    (by simpa using hcoherent')
  have hregistered' : Registered items' registered' := by
    simpa using Registered.nil.addAll (by simpa using fingerprinted_of_mapM hitems') hadd'
  have hsummary := summarize_perm (s := s) (p := p) (hregistered.perm hregistered' hfunctional hmem) hregistered.unique
  have hnonempty : 1 ≤ ys.length := by
    obtain ⟨x, hx⟩ := List.exists_mem_of_length_pos hlength'.1
    exact List.length_pos_of_mem (hall x hx)
  exact newSantaRuleCandidate_eq_ok.mpr
    ⟨hwindow, hsize, hwritten', ⟨hnonempty, hlength⟩, items', registered', hitems', hadd', hsummary.trans hout⟩

end Copies

/-- Candidates do not depend on the order of the events, and copies of events change nothing. -/
theorem draft_presentation (s : Shell) (p : Parameters) (xs : List Element) (hfree : CollisionFree s xs) :
    (∀ size blanks out, newSantaRuleCandidate s p ⟨size, .array blanks xs⟩ = .ok out →
      ∀ copies size' blanks' ys, (∀ y ∈ copies, ∃ x ∈ xs, Same x y) → ys.Perm (xs ++ copies) → ys.length ≤ 256 →
        size' ≤ 1048576 →
        ∃ out', newSantaRuleCandidate s p ⟨size', .array blanks' ys⟩ = .ok out' ∧ outputBytes out' = outputBytes out) ∧
    ∀ size blanks blanks' ys, ys.Perm xs →
      ((∃ out, newSantaRuleCandidate s p ⟨size, .array blanks xs⟩ = .ok out) ↔
        ∃ out, newSantaRuleCandidate s p ⟨size, .array blanks' ys⟩ = .ok out) := by
  have hreordered {xs ys : List Element} (hfree : CollisionFree s xs) (hperm : ys.Perm xs) {size : ℕ}
      {blanks blanks' : List Text} {out : List (List ℕ × Value)}
      (hrun : newSantaRuleCandidate s p ⟨size, .array blanks xs⟩ = .ok out) :
      newSantaRuleCandidate s p ⟨size, .array blanks' ys⟩ = .ok out := by
    obtain ⟨-, hsize, -, hlength, -⟩ := newSantaRuleCandidate_eq_ok.mp hrun
    apply newSantaRuleCandidate_copies hfree hrun _ _ (hperm.length_eq ▸ hlength.2) hsize
    · intro y hy
      exact Or.inl (hperm.mem_iff.mp hy)
    · intro x hx
      exact hperm.mem_iff.mpr hx
  constructor
  · intro size blanks out hrun copies size' blanks' ys hcopies hperm hlength hsize
    refine ⟨out, newSantaRuleCandidate_copies hfree hrun (fun y hy => ?_) (fun x hx => ?_) hlength hsize, rfl⟩
    · rcases List.mem_append.mp (hperm.mem_iff.mp hy) with hx | hcopy
      · exact Or.inl hx
      · exact Or.inr (hcopies y hcopy)
    · exact hperm.mem_iff.mpr (List.mem_append_left _ hx)
  · intro size blanks blanks' ys hperm
    have hfree' : CollisionFree s ys := fun a ha b hb => hfree a (hperm.mem_iff.mp ha) b (hperm.mem_iff.mp hb)
    constructor
    · rintro ⟨out, hrun⟩
      exact ⟨out, hreordered hfree hperm hrun⟩
    · rintro ⟨out, hrun⟩
      exact ⟨out, hreordered hfree' hperm.symm hrun⟩

/-- An array of one inspected event makes a candidate. -/
theorem newSantaRuleCandidate_singleton {x : Element} {item : Item} (hwindow : p.InWindow) {size : ℕ}
    (hsize : size ≤ 1048576) (hx : inspect s p.evaluationTime x = .ok item) (hdepth : Parsed 999 x) :
    ∃ out, newSantaRuleCandidate s p ⟨size, .array [] [x]⟩ = .ok out := by
  obtain ⟨-, hunique⟩ := inspect_parsed hx
  obtain ⟨-, hwritten⟩ | ⟨hdup, -⟩ := write_dichotomy hdepth le_rfl
  · refine ⟨_, newSantaRuleCandidate_eq_ok.mpr ⟨hwindow, hsize, by simpa using hwritten, by simp, [item], [item],
      mapM_eq_ok.mpr (.cons hx .nil), rfl, rfl⟩⟩
  · exact absurd hdup hunique

theorem fixtureParameters_inWindow : fixtureParameters.InWindow := by
  norm_num [Parameters.InWindow, fixtureParameters]

theorem draft_presentation_fixture :
    ∃ out, newSantaRuleCandidate fixtureShell fixtureParameters ⟨700, .array [] [fixtureEvent]⟩ = .ok out ∧
      ∃ out', newSantaRuleCandidate fixtureShell fixtureParameters
        ⟨1400, .array [] [fixtureReordered, fixtureEvent]⟩ = .ok out' ∧ outputBytes out' = outputBytes out := by
  have hfree : CollisionFree fixtureShell [fixtureEvent] := by
    simp only [CollisionFree, List.mem_singleton, forall_eq]
    intro raw raw' hraw hraw' _
    exact Except.ok.inj (hraw.symm.trans hraw')
  obtain ⟨out, hout⟩ := newSantaRuleCandidate_singleton fixtureParameters_inWindow (show 700 ≤ 1048576 by norm_num)
    fixture_inspect (fixtureMembers_parsed 997 _ _)
  refine ⟨out, hout, ?_⟩
  apply (draft_presentation fixtureShell fixtureParameters [fixtureEvent] hfree).1 700 [] out hout [fixtureReordered]
  · intro y hy
    exact ⟨fixtureEvent, List.mem_cons_self, List.mem_singleton.mp hy ▸ fixture_reordered⟩
  · exact List.Perm.swap _ _ _
  · simp
  · norm_num

end Candidates
