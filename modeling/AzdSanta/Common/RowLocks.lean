import AzdSanta.Common.Processes

/-! Rows behind locks. A connection takes locks, stages one row and commits it, or is cut off; the log says what was
committed. -/
namespace RowLocks

structure Entry (ν η : Type) where
  note : η
  row : ν

structure Database (κ ν η : Type) where
  rows : List ν
  /-- The connection that holds a lock. -/
  holder : κ → Option ℕ
  /-- The row that a connection has written and not committed. -/
  pending : ℕ → Option ν
  /-- The transaction of a connection is over. -/
  ended : ℕ → Bool
  /-- The last commit in front. -/
  log : List (Entry ν η)

section Rows
variable {κ ν η : Type} (key : ν → κ)

theorem eq_of_key {rows : List ν} (h : (rows.map key).Nodup) {u v : ν} (hu : u ∈ rows) (hv : v ∈ rows)
    (hkey : key u = key v) : u = v := List.inj_on_of_nodup_map h hu hv hkey

variable [DecidableEq κ]

/-- Writes a row in the place of the one with its key, or as a new one. -/
def put (v : ν) (rows : List ν) : List ν :=
  if key v ∈ rows.map key then rows.map fun u => if key u = key v then v else u else rows ++ [v]

/-- The rows that the commits make of `start`. -/
def replay (start : List ν) (log : List (Entry ν η)) : List ν := log.foldr (fun c rows => put key c.row rows) start

theorem mem_put {u v : ν} {rows : List ν} : u ∈ put key v rows ↔ u = v ∨ u ∈ rows ∧ key u ≠ key v := by
  unfold put
  split_ifs with hv
  · simp only [List.mem_map] at hv ⊢
    obtain ⟨v', hv', hkey⟩ := hv
    constructor
    · rintro ⟨w, hw, rfl⟩
      split_ifs with h
      · exact Or.inl rfl
      · exact Or.inr ⟨hw, h⟩
    · rintro (rfl | ⟨hu, hne⟩)
      · exact ⟨v', hv', if_pos hkey⟩
      · exact ⟨u, hu, if_neg hne⟩
  · rw [List.mem_append, List.mem_singleton]
    constructor
    · rintro (hu | rfl)
      · exact Or.inr ⟨hu, fun h => hv (List.mem_map.mpr ⟨u, hu, h⟩)⟩
      · exact Or.inl rfl
    · rintro (rfl | ⟨hu, -⟩)
      · exact Or.inr rfl
      · exact Or.inl hu

theorem nodup_put {rows : List ν} (h : (rows.map key).Nodup) (v : ν) : ((put key v rows).map key).Nodup := by
  unfold put
  split_ifs with hv
  · have hsame : (rows.map fun u => if key u = key v then v else u).map key = rows.map key := by
      rw [List.map_map]
      refine List.map_congr_left fun u _ => ?_
      simp only [Function.comp_apply]
      split_ifs with hu
      · exact hu.symm
      · rfl
    rwa [hsame]
  · rw [List.map_append, List.nodup_append]
    refine ⟨h, List.nodup_singleton _, ?_⟩
    rintro a ha b hb rfl
    obtain rfl := List.mem_singleton.mp hb
    exact hv ha

theorem nodup_replay {start : List ν} (h : (start.map key).Nodup) (log : List (Entry ν η)) :
    ((replay key start log).map key).Nodup := by
  induction log with
  | nil => exact h
  | cons c log ih => exact nodup_put key ih c.row

end Rows

section Operations
variable {κ ν η : Type} [DecidableEq κ] (key : ν → κ) (s : Database κ ν η) (n : ℕ)

def Database.initial (rows : List ν) : Database κ ν η := ⟨rows, fun _ => none, fun _ => none, fun _ => false, []⟩

/-- A lock is given where nobody else holds it. -/
def Database.lock (k : κ) : Option (Database κ ν η) :=
  if s.ended n = false ∧ (s.holder k = none ∨ s.holder k = some n) then
    some { s with holder := Function.update s.holder k (some n) }
  else none

/-- A row is written under its lock. -/
def Database.stage (v : ν) : Option (Database κ ν η) :=
  if s.ended n = false ∧ s.holder (key v) = some n then some { s with pending := Function.update s.pending n (some v) }
  else none

/-- The transaction is over, and its locks are free. -/
def Database.release : Database κ ν η where
  rows := s.rows
  holder k := if s.holder k = some n then none else s.holder k
  pending := Function.update s.pending n none
  ended := Function.update s.ended n true
  log := s.log

/-- A row is there for all, and noted. -/
def Database.enter (note : η) (v : ν) : Database κ ν η :=
  { s with rows := put key v s.rows, log := ⟨note, v⟩ :: s.log }

def Database.commit (note : η) : Option (Database κ ν η) :=
  if s.ended n = false then (s.pending n).map fun v => (s.enter key note v).release n else none

/-- A commit of somebody else, who had to wait for the lock. -/
def Database.change (note : η) (v : ν) : Option (Database κ ν η) :=
  if s.holder (key v) = none then some (s.enter key note v) else none

end Operations

section Frame
variable {κ ν η : Type} {key : ν → κ} {s s' s'' : Database κ ν η} {n m : ℕ} {k : κ} {v : ν} {note : η}

theorem release_holder (s : Database κ ν η) (hm : m ≠ n) (h : s.holder k = some m) : (s.release n).holder k = some m := by
  change (if s.holder k = some n then none else s.holder k) = some m
  rw [h]
  exact if_neg fun heq => hm (Option.some.inj heq)

theorem release_pending (s : Database κ ν η) (n m : ℕ) :
    (s.release n).pending m = if m = n then none else s.pending m := Function.update_apply s.pending n none m

theorem stage_eq_some (h : s.stage key n v = some s') : s.ended n = false ∧ s.holder (key v) = some n ∧
    s' = { s with pending := Function.update s.pending n (some v) } := by
  unfold Database.stage at h
  split_ifs at h with hheld
  exact ⟨hheld.1, hheld.2, (Option.some.inj h).symm⟩

/-- `n` holds the lock, unless it was cut off. -/
def Holds (n : ℕ) (k : κ) (s : Database κ ν η) : Prop := s.ended n = true ∨ s.holder k = some n

/-- `n` holds the lock of the row, which is as it was read. -/
def Sees (key : ν → κ) (n : ℕ) (v : ν) (s : Database κ ν η) : Prop :=
  s.ended n = true ∨ s.holder (key v) = some n ∧ v ∈ s.rows

/-- `n` holds the lock of a row that is not there. -/
def Lacks (key : ν → κ) (n : ℕ) (k : κ) (s : Database κ ν η) : Prop :=
  s.ended n = true ∨ s.holder k = some n ∧ ∀ v ∈ s.rows, key v ≠ k

/-- `n` has written the row. -/
def Stages (n : ℕ) (v : ν) (s : Database κ ν η) : Prop := s.ended n = true ∨ s.pending n = some v

/-- What `n` does itself before its commit. -/
structure Calm (n : ℕ) (s s' : Database κ ν η) : Prop where
  ended : s'.ended n = s.ended n
  holder : ∀ k, s.holder k = some n → s'.holder k = some n
  rows : s'.rows = s.rows

theorem Calm.trans (h : Calm n s s') (h' : Calm n s' s'') : Calm n s s'' :=
  ⟨h'.ended.trans h.ended, fun k hk => h'.holder k (h.holder k hk), h'.rows.trans h.rows⟩

theorem Calm.holds (h : Calm n s s') (hs : Holds n k s) : Holds n k s' := hs.imp h.ended.trans (h.holder k)

theorem Calm.sees (h : Calm n s s') (hs : Sees key n v s) : Sees key n v s' :=
  hs.imp h.ended.trans fun ⟨hheld, hv⟩ => ⟨h.holder _ hheld, h.rows ▸ hv⟩

theorem Calm.lacks (h : Calm n s s') (hs : Lacks key n k s) : Lacks key n k s' :=
  hs.imp h.ended.trans fun ⟨hheld, hnone⟩ => ⟨h.holder _ hheld, h.rows ▸ hnone⟩

theorem stage_calm (h : s.stage key n v = some s') : Calm n s s' ∧ s'.pending n = some v := by
  obtain ⟨-, -, rfl⟩ := stage_eq_some h
  exact ⟨⟨rfl, fun _ hk => hk, rfl⟩, Function.update_self _ _ _⟩

variable [DecidableEq κ]

/-- What others may do to the database while `n` is in its transaction: cut it off, or leave alone what it holds. -/
def Spares (key : ν → κ) (n : ℕ) (s s' : Database κ ν η) : Prop :=
  s'.ended n = true ∨ s'.ended n = s.ended n ∧ s'.pending n = s.pending n ∧
    (∀ k, s.holder k = some n → s'.holder k = some n) ∧
    (s'.rows = s.rows ∨ ∃ v, s'.rows = put key v s.rows ∧ s.holder (key v) ≠ some n)

theorem Spares.holds (h : Spares key n s s') (hs : Holds n k s) : Holds n k s' := by
  rcases h with hended | ⟨hended, -, hholder, -⟩
  · exact Or.inl hended
  · exact hs.imp hended.trans (hholder k)

theorem Spares.sees (h : Spares key n s s') (hs : Sees key n v s) : Sees key n v s' := by
  rcases h with hended | ⟨hended, -, hholder, hrows⟩
  · exact Or.inl hended
  · refine hs.imp hended.trans fun ⟨hheld, hv⟩ => ⟨hholder _ hheld, ?_⟩
    rcases hrows with hrows | ⟨u, hrows, hfree⟩
    · rwa [hrows]
    · rw [hrows, mem_put]
      refine Or.inr ⟨hv, fun hkey => hfree ?_⟩
      rw [← hkey]
      exact hheld

theorem Spares.lacks (h : Spares key n s s') (hs : Lacks key n k s) : Lacks key n k s' := by
  rcases h with hended | ⟨hended, -, hholder, hrows⟩
  · exact Or.inl hended
  · refine hs.imp hended.trans fun ⟨hheld, hnone⟩ => ⟨hholder _ hheld, fun u hu => ?_⟩
    rcases hrows with hrows | ⟨v, hrows, hfree⟩
    · exact hnone u (hrows ▸ hu)
    · rw [hrows, mem_put] at hu
      rcases hu with rfl | ⟨hu, -⟩
      · rintro rfl
        exact hfree hheld
      · exact hnone u hu

theorem Spares.stages (h : Spares key n s s') (hs : Stages n v s) : Stages n v s' := by
  rcases h with hended | ⟨hended, hpending, -, -⟩
  · exact Or.inl hended
  · exact hs.imp hended.trans hpending.trans

theorem Spares.refl (key : ν → κ) (n : ℕ) (s : Database κ ν η) : Spares key n s s :=
  Or.inr ⟨rfl, rfl, fun _ h => h, Or.inl rfl⟩

theorem Spares.trans (h : Spares key n s s') (h' : Spares key n s' s'') (hrows : s''.rows = s'.rows) :
    Spares key n s s'' := by
  rcases h' with hended' | ⟨hended', hpending', hholder', -⟩
  · exact Or.inl hended'
  · rcases h with hended | ⟨hended, hpending, hholder, hbefore⟩
    · exact Or.inl (hended'.trans hended)
    · rw [← hrows] at hbefore
      exact Or.inr ⟨hended'.trans hended, hpending'.trans hpending, fun k hk => hholder' k (hholder k hk), hbefore⟩

theorem lock_eq_some (h : s.lock n k = some s') : s.ended n = false ∧ (s.holder k = none ∨ s.holder k = some n) ∧
    s' = { s with holder := Function.update s.holder k (some n) } := by
  unfold Database.lock at h
  split_ifs at h with hfree
  exact ⟨hfree.1, hfree.2, (Option.some.inj h).symm⟩

theorem lock_spares (h : s.lock n k = some s') (hm : m ≠ n) : Spares key m s s' := by
  obtain ⟨-, hfree, rfl⟩ := lock_eq_some h
  refine Or.inr ⟨rfl, rfl, fun k' hk' => ?_, Or.inl rfl⟩
  rcases eq_or_ne k' k with rfl | hne
  · rcases hfree with hfree | hfree
    · rw [hfree] at hk'
      cases hk'
    · exact absurd (Option.some.inj (hk'.symm.trans hfree)) hm
  · exact (Function.update_of_ne hne _ _).trans hk'

theorem lock_calm (h : s.lock n k = some s') : Calm n s s' ∧ s'.holder k = some n := by
  obtain ⟨-, -, rfl⟩ := lock_eq_some h
  refine ⟨⟨rfl, fun k' hk' => ?_, rfl⟩, Function.update_self _ _ _⟩
  rcases eq_or_ne k' k with rfl | hne
  · exact Function.update_self _ _ _
  · exact (Function.update_of_ne hne _ _).trans hk'

theorem stage_spares (h : s.stage key n v = some s') (hm : m ≠ n) : Spares key m s s' := by
  obtain ⟨-, -, rfl⟩ := stage_eq_some h
  exact Or.inr ⟨rfl, Function.update_of_ne hm _ _, fun _ hk => hk, Or.inl rfl⟩

theorem release_spares (key : ν → κ) (n m : ℕ) (s : Database κ ν η) : Spares key m s (s.release n) := by
  rcases eq_or_ne m n with rfl | hm
  · exact Or.inl (Function.update_self _ _ _)
  · exact Or.inr ⟨Function.update_of_ne hm _ _, Function.update_of_ne hm _ _,
      fun k hk => release_holder s hm hk, Or.inl rfl⟩

theorem commit_eq_some (h : s.commit key n note = some s') : s.ended n = false ∧ ∃ v, s.pending n = some v ∧
    s' = (s.enter key note v).release n := by
  unfold Database.commit at h
  split_ifs at h with hlive
  obtain ⟨v, hv, rfl⟩ := Option.map_eq_some_iff.mp h
  exact ⟨hlive, v, hv, rfl⟩

theorem commit_spares (h : s.commit key n note = some s') (hheld : ∀ v, s.pending n = some v → s.holder (key v) = some n)
    (hm : m ≠ n) : Spares key m s s' := by
  obtain ⟨-, v, hv, rfl⟩ := commit_eq_some h
  refine Or.inr ⟨Function.update_of_ne hm _ _, Function.update_of_ne hm _ _,
    fun k hk => release_holder (s.enter key note v) hm hk, Or.inr ⟨v, rfl, ?_⟩⟩
  rw [hheld v hv]
  exact fun heq => hm (Option.some.inj heq).symm

theorem change_eq_some (h : s.change key note v = some s') : s.holder (key v) = none ∧ s' = s.enter key note v := by
  unfold Database.change at h
  split_ifs at h with hfree
  exact ⟨hfree, (Option.some.inj h).symm⟩

theorem change_spares (n : ℕ) (h : s.change key note v = some s') : Spares key n s s' := by
  obtain ⟨hfree, rfl⟩ := change_eq_some h
  refine Or.inr ⟨rfl, rfl, fun _ hk => hk, Or.inr ⟨v, rfl, ?_⟩⟩
  rw [hfree]
  rintro ⟨⟩

end Frame

section Discipline
variable {κ ν η : Type} [DecidableEq κ] {key : ν → κ} {start : List ν} {s s' : Database κ ν η} {n : ℕ} {k : κ} {v : ν}
  {note : η}

/-- The rows are those of the log, each under a key of its own, and what is written is written under a lock. -/
structure Disciplined (key : ν → κ) (start : List ν) (s : Database κ ν η) : Prop where
  rows : s.rows = replay key start s.log
  unique : (s.rows.map key).Nodup
  held : ∀ n v, s.pending n = some v → s.holder (key v) = some n

theorem disciplined_initial (h : (start.map key).Nodup) : Disciplined key start (.initial start : Database κ ν η) := by
  refine ⟨rfl, h, ?_⟩
  rintro n v ⟨⟩

theorem Disciplined.lock (h : Disciplined key start s) (hlock : s.lock n k = some s') : Disciplined key start s' := by
  refine ⟨?_, ?_, fun m v hv => ?_⟩
  · obtain ⟨-, -, rfl⟩ := lock_eq_some hlock
    exact h.rows
  · obtain ⟨-, -, rfl⟩ := lock_eq_some hlock
    exact h.unique
  · obtain ⟨-, hfree, rfl⟩ := lock_eq_some hlock
    have hheld := h.held m v hv
    rcases eq_or_ne (key v) k with hkey | hne
    · rw [hkey] at hheld ⊢
      rcases hfree with hfree | hfree
      · rw [hfree] at hheld
        cases hheld
      · rw [← hheld, hfree]
        exact Function.update_self _ _ _
    · exact (Function.update_of_ne hne _ _).trans hheld

theorem Disciplined.stage (h : Disciplined key start s) (hstage : s.stage key n v = some s') :
    Disciplined key start s' := by
  obtain ⟨-, hheld, rfl⟩ := stage_eq_some hstage
  refine ⟨h.rows, h.unique, fun m u hu => ?_⟩
  rcases eq_or_ne m n with rfl | hne
  · obtain rfl := Option.some.inj ((Function.update_self m (some v) s.pending).symm.trans hu)
    exact hheld
  · exact h.held m u ((Function.update_of_ne hne (some v) s.pending).symm.trans hu)

theorem Disciplined.release (h : Disciplined key start s) (n : ℕ) : Disciplined key start (s.release n) := by
  refine ⟨h.rows, h.unique, fun m u hu => ?_⟩
  rw [release_pending] at hu
  split_ifs at hu with hne
  exact release_holder s hne (h.held m u hu)

theorem Disciplined.enter (h : Disciplined key start s) (note : η) (v : ν) :
    Disciplined key start (s.enter key note v) := by
  refine ⟨?_, nodup_put key h.unique v, h.held⟩
  rw [Database.enter, h.rows]
  rfl

end Discipline
end RowLocks
