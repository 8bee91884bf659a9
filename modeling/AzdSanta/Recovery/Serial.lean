import AzdSanta.Recovery.Accounts

/-! Bootstraps, recoveries and password resets in any interleaving: they are one after another in the order of their
commits, and a link is good for one password and only until the next one. -/
namespace Recovery.Concurrent
open Python Processes RowLocks

abbrev Log := List (Entry User Note)

section Law
variable (site : Site) (start : List User)

/-- The password hashes of all rows there have been. -/
def seen (log : Log) : List Text := log.map (fun c => c.row.password) ++ start.map User.password

/-- The row of an active local human is there, and all that changes is the password hash, which is a new one. -/
structure Renews (old : User) (c : Entry User Note) (earlier : Log) : Prop where
  mem : old ∈ replay key start earlier
  localHuman : isLocalHuman old = true
  row : c.row = { old with password := c.row.password }
  fresh : c.row.password ∉ seen start earlier

/-- A commit after the earlier ones. -/
def Allowed (c : Entry User Note) (earlier : Log) : Prop :=
  match c.note with
  | .bootstrap r link => r.mode = text "bootstrap" ∧ (∀ u ∈ replay key start earlier, u.isServiceAccount = true) ∧
      (∀ u ∈ replay key start earlier, u.pk ≠ c.row.pk) ∧
      isNewAdmin r.username (site.normalizeEmail r.email) c.row = true ∧ c.row.password ∉ seen start earlier ∧
      ∃ now, link = site.link c.row now
  | .recover r old link => r.mode ≠ text "bootstrap" ∧ old.username = r.username ∧ old.email = r.email ∧
      Renews start old c earlier ∧ ∃ now, link = site.link c.row now
  | .set k old now => old.pk = k.pk ∧ k.sets = true ∧ site.checkToken old k.token now = true ∧ Renews start old c earlier
  | .other => (∃ old ∈ replay key start earlier, old.pk = c.row.pk ∧ old.isServiceAccount = c.row.isServiceAccount ∧
        (c.row.password = old.password ∨ c.row.password ∉ seen start earlier)) ∨
      (∀ u ∈ replay key start earlier, u.pk ≠ c.row.pk) ∧ c.row.isServiceAccount = true ∧
        c.row.password ∉ seen start earlier

/-- A password hash that was that of the user, and is not any more. -/
def Spent (log : Log) (pk : ℕ) (password : Text) : Prop :=
  password ∈ seen start log ∧ ∀ u ∈ replay key start log, u.pk = pk → u.password ≠ password

end Law

section Serial
variable {site : Site} {start : List User} {log later earlier : Log} {c : Entry User Note} {pk : ℕ} {password : Text}

theorem key_eq {u v : User} : key u = key v ↔ u.pk = v.pk := by simp [key]

theorem mem_replay_cons {u : User} :
    u ∈ replay key start (c :: log) ↔ u = c.row ∨ u ∈ replay key start log ∧ u.pk ≠ c.row.pk := by
  change u ∈ put key c.row (replay key start log) ↔ _
  rw [mem_put, Ne, key_eq]

theorem seen_cons : seen start (c :: log) = c.row.password :: seen start log := rfl

theorem eq_of_pk (hstart : (start.map key).Nodup) {u v : User} (hu : u ∈ replay key start log)
    (hv : v ∈ replay key start log) (hpk : u.pk = v.pk) : u = v :=
  eq_of_key key (nodup_replay key hstart log) hu hv (key_eq.mpr hpk)

theorem password_seen {u : User} (hu : u ∈ replay key start log) : u.password ∈ seen start log := by
  induction log with
  | nil => exact List.mem_append_right _ (List.mem_map_of_mem hu)
  | cons c log ih =>
    rw [seen_cons]
    rcases mem_replay_cons.mp hu with rfl | ⟨hu, -⟩
    · exact List.mem_cons_self
    · exact List.mem_cons_of_mem _ (ih hu)

theorem Renews.samePk {old : User} (h : Renews start old c earlier) : c.row.pk = old.pk := by rw [h.row]

/-- What a recovery commits is the reset of `apply_access` on its own. -/
theorem Renews.reset {old : User} (h : Renews start old c earlier) (t : Tables) (ht : t.users = replay key start earlier) :
    replay key start (c :: earlier) = (t.reset old c.row.password).users := by
  have hkey : key c.row ∈ (replay key start earlier).map key := by
    refine List.mem_map.mpr ⟨old, h.mem, ?_⟩
    rw [h.row]
    rfl
  change put key c.row (replay key start earlier) = _
  rw [put, if_pos hkey, Tables.reset, ht]
  refine List.map_congr_left fun u _ => ?_
  rw [← h.row]
  simp only [key_eq, h.samePk]

/-- A commit brings a password hash that was not there before, or keeps that of the row. -/
theorem Allowed.renewed (h : Allowed site start c earlier) : c.row.password ∉ seen start earlier ∨
    ∃ old ∈ replay key start earlier, old.pk = c.row.pk ∧ c.row.password = old.password := by
  obtain ⟨note, row⟩ := c
  cases note with
  | bootstrap r link => exact Or.inl h.2.2.2.2.1
  | recover r old link => exact Or.inl h.2.2.2.1.fresh
  | set k old now => exact Or.inl h.2.2.2.fresh
  | other =>
    rcases h with ⟨old, hold, hpk, -, hsame | hfresh⟩ | ⟨-, -, hfresh⟩
    · exact Or.inr ⟨old, hold, hpk, hsame⟩
    · exact Or.inl hfresh
    · exact Or.inl hfresh

theorem Spent.cons (h : Spent start log pk password) (hallowed : Allowed site start c log) :
    Spent start (c :: log) pk password := by
  obtain ⟨hseen, hrows⟩ := h
  refine ⟨List.mem_cons_of_mem _ hseen, fun u hu hpk => ?_⟩
  rcases mem_replay_cons.mp hu with rfl | ⟨hu, -⟩
  · rcases hallowed.renewed with hfresh | ⟨old, hold, hsame, hpassword⟩
    · exact fun heq => hfresh (heq ▸ hseen)
    · rw [hpassword]
      exact hrows old hold (hsame.trans hpk)
  · exact hrows u hu hpk

/-- What is spent stays so. -/
theorem Spent.append (h : Spent start log pk password) (hlawful : Lawful (Allowed site start) (later ++ log)) :
    Spent start (later ++ log) pk password := by
  induction later with
  | nil => exact h
  | cons c later ih => exact (ih hlawful.2).cons hlawful.1

/-- A new password hash of a user ends all that were there. -/
theorem spent_of_fresh (hstart : (start.map key).Nodup) (hfresh : c.row.password ∉ seen start earlier)
    (hpassword : password ∈ seen start earlier) : Spent start (c :: earlier) c.row.pk password := by
  refine ⟨List.mem_cons_of_mem _ hpassword, fun u hu hpk => ?_⟩
  have hrow : c.row ∈ replay key start (c :: earlier) := mem_replay_cons.mpr (Or.inl rfl)
  rw [eq_of_pk hstart hu hrow hpk]
  exact fun heq => hfresh (heq ▸ hpassword)

theorem checkToken_eq_true {u : User} {token : Text} {now : ℕ} (h : site.checkToken u token now = true) :
    ∃ t, site.makeToken u t = token ∧ now - t ≤ resetSeconds := by
  unfold Site.checkToken at h
  split at h
  · cases h
  · next t _ =>
    obtain ⟨htoken, hage⟩ := Bool.and_eq_true_iff.mp h
    exact ⟨t, of_decide_eq_true htoken, of_decide_eq_true hage⟩

/-- A token of a spent password hash is refused. -/
theorem Spent.refused (h : Spent start log pk password) {u v : User} {t now : ℕ} {token : Text}
    (hpk : v.pk = pk) (hpassword : v.password = password) (htoken : token = site.makeToken v t)
    (hu : u ∈ replay key start log) : site.checkToken u token now = false := by
  refine Bool.eq_false_iff.mpr fun hcheck => ?_
  obtain ⟨t', hmade, -⟩ := checkToken_eq_true hcheck
  obtain ⟨hsame, hsame'⟩ := site.determined u v t' t (hmade.trans htoken)
  exact h.2 u hu (hsame.trans hpk) (hsame'.trans hpassword)

/-- A human stays one, and is not ended. -/
theorem human_cons (hallowed : Allowed site start c log) (h : ∃ u ∈ replay key start log, u.isServiceAccount = false)
    (hstart : (start.map key).Nodup) : ∃ u ∈ replay key start (c :: log), u.isServiceAccount = false := by
  obtain ⟨u, hu, hhuman⟩ := h
  by_cases hpk : u.pk = c.row.pk
  · refine ⟨c.row, mem_replay_cons.mpr (Or.inl rfl), ?_⟩
    have hrenewed (old : User) (hrenews : Renews start old c log) : c.row.isServiceAccount = false := by
      have hservice : old.isServiceAccount = false := by
        have hlocal := hrenews.localHuman
        simp only [isLocalHuman, Bool.and_eq_true, Bool.not_eq_true'] at hlocal
        exact hlocal.2
      rw [hrenews.row]
      exact hservice
    obtain ⟨note, row⟩ := c
    cases note with
    | bootstrap r link => exact absurd hpk (hallowed.2.2.1 u hu)
    | recover r old link => exact hrenewed old hallowed.2.2.2.1
    | set k old now => exact hrenewed old hallowed.2.2.2
    | other =>
      rcases hallowed with ⟨old, hold, hsame, hservice, -⟩ | ⟨hnone, -⟩
      · rw [← hservice, eq_of_pk hstart hold hu (hsame.trans hpk.symm)]
        exact hhuman
      · exact absurd hpk (hnone u hu)
  · exact ⟨u, mem_replay_cons.mpr (Or.inr ⟨hu, hpk⟩), hhuman⟩

theorem human_append (hstart : (start.map key).Nodup) (hlawful : Lawful (Allowed site start) (later ++ log))
    (h : ∃ u ∈ replay key start log, u.isServiceAccount = false) :
    ∃ u ∈ replay key start (later ++ log), u.isServiceAccount = false := by
  induction later with
  | nil => exact h
  | cons c later ih => exact human_cons hlawful.1 (ih hlawful.2) hstart

theorem isLocalHuman_service {u : User} (h : isLocalHuman u = true) : u.isServiceAccount = false := by
  simp only [isLocalHuman, Bool.and_eq_true, Bool.not_eq_true'] at h
  exact h.2

/-- There is one bootstrap, and none where there was a human. -/
theorem bootstrap_once (hstart : (start.map key).Nodup) (hlawful : Lawful (Allowed site start) log) :
    log.countP (fun e => e.note.isBootstrap) ≤ 1 := by
  refine hlawful.strong.count_le_one fun c log ⟨hallowed, hlawful⟩ hc e he => ?_
  refine Bool.eq_false_iff.mpr fun hbefore => ?_
  obtain ⟨later, earlier, rfl⟩ := List.append_of_mem he
  have hadmin : isLocalHuman e.row = true := by
    have hentry := hlawful.entry
    obtain ⟨note, row⟩ := e
    cases note with
    | bootstrap r link =>
      have hnew := hentry.2.2.2.1
      simp only [isNewAdmin, Bool.and_eq_true] at hnew
      exact hnew.1.2
    | recover | set | other => cases hbefore
  obtain ⟨u, hu, hhuman⟩ := human_append hstart hlawful
    ⟨e.row, mem_replay_cons.mpr (Or.inl rfl), isLocalHuman_service hadmin⟩
  obtain ⟨note, row⟩ := c
  cases note with
  | bootstrap r link =>
    rw [hallowed.2.1 u hu] at hhuman
    cases hhuman
  | recover | set | other => cases hc

/-- What a token set a password with is spent. -/
theorem spent_of_token (hstart : (start.map key).Nodup) {e : Entry User Note}
    (hlawful : Lawful (Allowed site start) (later ++ e :: earlier)) {token : Text} (htoken : e.note.token = some token) :
    ∃ old t, token = site.makeToken old t ∧ Spent start (later ++ e :: earlier) old.pk old.password := by
  have hentry := hlawful.entry
  obtain ⟨note, row⟩ := e
  cases note with
  | set k old now =>
    obtain rfl := Option.some.inj htoken
    obtain ⟨-, -, hcheck, hrenews⟩ := hentry
    obtain ⟨t, hmade, -⟩ := checkToken_eq_true hcheck
    refine ⟨old, t, hmade.symm, Spent.append ?_ hlawful⟩
    rw [← hrenews.samePk]
    exact spent_of_fresh hstart hrenews.fresh (password_seen hrenews.mem)
  | bootstrap | recover | other => cases htoken

/-- One token sets one password. -/
theorem token_once (hstart : (start.map key).Nodup) (hlawful : Lawful (Allowed site start) log) (token : Text) :
    log.countP (fun e => e.note.token = some token) ≤ 1 := by
  refine hlawful.strong.count_le_one fun c log ⟨hallowed, hlawful⟩ hc e he => ?_
  refine decide_eq_false fun hbefore => ?_
  obtain ⟨later, earlier, rfl⟩ := List.append_of_mem he
  obtain ⟨v, t, hmade, hspent⟩ := spent_of_token hstart hlawful hbefore
  obtain ⟨note, row⟩ := c
  cases note with
  | set k old now =>
    obtain rfl := Option.some.inj (of_decide_eq_true hc)
    obtain ⟨-, -, hcheck, hrenews⟩ := hallowed
    rw [hspent.refused rfl rfl hmade hrenews.mem] at hcheck
    cases hcheck
  | bootstrap | recover | other => cases of_decide_eq_true hc

/-- The user whose password was set anew. -/
def Note.renewed : Note → Option ℕ
  | .recover _ old _ | .set _ old _ => some old.pk
  | _ => none

/-- A recovery or a reset of a user ends the links that were given out for this user. -/
theorem link_spent (hstart : (start.map key).Nodup) {c e : Entry User Note}
    (hlawful : Lawful (Allowed site start) (later ++ c :: earlier)) {pk : ℕ} (hc : c.note.renewed = some pk)
    (he : e ∈ earlier) {link : Link} (hlink : e.note.link = some link) (hpk : link.pk = pk) :
    ∃ v t, link.token = site.makeToken v t ∧ Spent start (later ++ c :: earlier) v.pk v.password := by
  obtain ⟨old, hold, hrenews⟩ : ∃ old : User, old.pk = pk ∧ Renews start old c earlier := by
    have hentry := hlawful.entry
    obtain ⟨note, row⟩ := c
    cases note with
    | recover r old link => exact ⟨old, Option.some.inj hc, hentry.2.2.2.1⟩
    | set k old now => exact ⟨old, Option.some.inj hc, hentry.2.2.2⟩
    | bootstrap | other => cases hc
  obtain ⟨now, hmade⟩ : ∃ now, link = site.link e.row now := by
    obtain ⟨before, -, hallowed⟩ := (Lawful.suffix hlawful).of_mem he
    obtain ⟨note, row⟩ := e
    cases note with
    | bootstrap r link' =>
      obtain rfl := Option.some.inj hlink
      exact hallowed.2.2.2.2.2
    | recover r old link' =>
      obtain rfl := Option.some.inj hlink
      exact hallowed.2.2.2.2
    | set | other => cases hlink
  have hsame : e.row.pk = c.row.pk := by
    rw [hrenews.samePk, hold, ← hpk, hmade]
    rfl
  refine ⟨e.row, now, by rw [hmade]; rfl, Spent.append ?_ hlawful⟩
  rw [hsame]
  exact spent_of_fresh hstart hrenews.fresh
    (List.mem_append_left _ (List.mem_map_of_mem (f := fun c : Entry User Note => c.row.password) he))

end Serial

section Contract
variable (site : Site) (start : List User)

structure Inv (s : Shared) : Prop where
  disciplined : Disciplined key start s.db
  lawful : Lawful (Allowed site start) s.db.log
  seen : ∀ p ∈ seen start s.db.log, p ∈ s.made
  pending : ∀ n v, s.db.pending n = some v → v.password ∈ s.made ∧ v.password ∉ Concurrent.seen start s.db.log
  apart : ∀ n m v u, n ≠ m → s.db.pending n = some v → s.db.pending m = some u → v.password ≠ u.password

/-- Some account is a human's. -/
def Peopled (s : Shared) : Prop := ∃ u ∈ s.db.rows, u.isServiceAccount = false

/-- A transaction spares the others, and the first human comes under the lock of the content type. -/
def contract : Contract Shared where
  inv := Inv site start
  own n s s' := (∀ m, m ≠ n → Spares key m s.db s'.db) ∧
    (Peopled s' → Peopled s ∨ s.db.holder .contentType = some n)

end Contract

section Steps
variable {site : Site} {start : List User} {s s' : Shared} {n m : ℕ} {db : Database Key User Note}

theorem Inv.release (h : Inv site start s) (n : ℕ) : Inv site start { s with db := s.db.release n } := by
  have hpending {m : ℕ} {v : User} (hv : (s.db.release n).pending m = some v) : s.db.pending m = some v := by
    rw [release_pending] at hv
    split_ifs at hv
    exact hv
  exact ⟨h.disciplined.release n, h.lawful, h.seen, fun m v hv => h.pending m v (hpending hv),
    fun m m' v u hne hv hu => h.apart m m' v u hne (hpending hv) (hpending hu)⟩

theorem Inv.lock (h : Inv site start s) {k : Key} (hlock : s.db.lock n k = some db) :
    Inv site start { s with db := db } := by
  have hdisciplined := h.disciplined.lock hlock
  obtain ⟨-, -, rfl⟩ := lock_eq_some hlock
  exact ⟨hdisciplined, h.lawful, h.seen, h.pending, h.apart⟩

/-- A row with a new password hash is written. -/
theorem Inv.stage (h : Inv site start s) {u : User} (hfresh : u.password ∉ s.made)
    (hstage : s.db.stage key n u = some db) : Inv site start ⟨db, u.password :: s.made, s.now⟩ := by
  have hdisciplined := h.disciplined.stage hstage
  obtain ⟨-, -, rfl⟩ := stage_eq_some hstage
  have hpending {m : ℕ} {v : User} (hv : Function.update s.db.pending n (some u) m = some v) :
      m = n ∧ v = u ∨ m ≠ n ∧ s.db.pending m = some v := by
    rcases eq_or_ne m n with rfl | hne
    · rw [Function.update_self] at hv
      exact Or.inl ⟨rfl, (Option.some.inj hv).symm⟩
    · rw [Function.update_of_ne hne] at hv
      exact Or.inr ⟨hne, hv⟩
  have hother {m : ℕ} {v : User} (hv : s.db.pending m = some v) : v.password ≠ u.password :=
    fun heq => hfresh (heq ▸ (h.pending m v hv).1)
  refine ⟨hdisciplined, h.lawful, fun p hp => List.mem_cons_of_mem _ (h.seen p hp), fun m v hv => ?_,
    fun m m' v v' hne hv hv' => ?_⟩
  · rcases hpending hv with ⟨-, rfl⟩ | ⟨-, hold⟩
    · exact ⟨List.mem_cons_self, fun hseen => hfresh (h.seen _ hseen)⟩
    · exact ⟨List.mem_cons_of_mem _ (h.pending m v hold).1, (h.pending m v hold).2⟩
  · rcases hpending hv with ⟨rfl, rfl⟩ | ⟨-, hold⟩
    · rcases hpending hv' with ⟨rfl, -⟩ | ⟨-, hold'⟩
      · exact absurd rfl hne
      · exact (hother hold').symm
    · rcases hpending hv' with ⟨-, rfl⟩ | ⟨-, hold'⟩
      · exact hother hold
      · exact h.apart m m' v v' hne hold hold'

/-- A row is there for all, and nobody else is about to write its password hash. -/
theorem Inv.enter (h : Inv site start s) {note : Note} {u : User} {made : List Text}
    (hallowed : Allowed site start ⟨note, u⟩ s.db.log) (hmade : ∀ p ∈ s.made, p ∈ made) (hnew : u.password ∈ made)
    (hapart : ∀ m v, s.db.pending m = some v → v.password ≠ u.password) :
    Inv site start ⟨s.db.enter key note u, made, s.now⟩ := by
  refine ⟨h.disciplined.enter note u, ⟨hallowed, h.lawful⟩, fun p hp => ?_, fun m v hv => ?_, h.apart⟩
  · rcases List.mem_cons.mp hp with rfl | hp
    · exact hnew
    · exact hmade p (h.seen p hp)
  · refine ⟨hmade _ (h.pending m v hv).1, fun hseen => ?_⟩
    rcases List.mem_cons.mp hseen with heq | hseen
    · exact hapart m v hv heq
    · exact (h.pending m v hv).2 hseen

theorem Inv.disturbed (h : Inv site start s) {e : Disturb} (he : disturb e s = some s') :
    Inv site start s' ∧ (∀ n, Spares key n s.db s'.db) ∧ (Peopled s' → Peopled s) := by
  cases e with
  | time t =>
    obtain rfl := Option.some.inj he
    exact ⟨⟨h.disciplined, h.lawful, h.seen, h.pending, h.apart⟩, fun n => .refl key n s.db, fun hpeople => hpeople⟩
  | cut m =>
    obtain rfl := Option.some.inj he
    exact ⟨h.release m, fun n => release_spares key m n s.db, fun hpeople => hpeople⟩
  | change u =>
    simp only [disturb, Option.ite_none_right_eq_some, Option.map_eq_some_iff] at he
    obtain ⟨hmay, db, hdb, rfl⟩ := he
    have hspares (n : ℕ) := change_spares n hdb
    obtain ⟨hfree, rfl⟩ := change_eq_some hdb
    have hrows := h.disciplined.rows
    simp only [Shared.mayChange, Bool.or_eq_true, Bool.and_eq_true, List.any_eq_true, List.all_eq_true,
      decide_eq_true_eq] at hmay
    have hnew (hfresh : u.password ∉ s.made) : u.password ∉ Concurrent.seen start s.db.log := fun hseen => hfresh (h.seen _ hseen)
    have hallowed : Allowed site start ⟨.other, u⟩ s.db.log := by
      rcases hmay with ⟨v, hv, ⟨hpk, hservice⟩, hpassword⟩ | ⟨⟨hnone, hservice⟩, hpassword⟩
      · exact Or.inl ⟨v, hrows ▸ hv, hpk, hservice, hpassword.imp id hnew⟩
      · exact Or.inr ⟨fun v hv => hnone v (hrows ▸ hv), hservice, hnew hpassword⟩
    have hapart (m : ℕ) (v : User) (hv : s.db.pending m = some v) : v.password ≠ u.password := by
      have hfresh (hpassword : u.password ∉ s.made) : v.password ≠ u.password :=
        fun heq => hpassword (heq ▸ (h.pending m v hv).1)
      rcases hmay with ⟨w, hw, -, hkept | hpassword⟩ | ⟨-, hpassword⟩
      · rw [hkept]
        exact fun heq => (h.pending m v hv).2 (heq ▸ password_seen (hrows ▸ hw))
      · exact hfresh hpassword
      · exact hfresh hpassword
    refine ⟨h.enter hallowed (fun p hp => List.mem_cons_of_mem _ hp) List.mem_cons_self hapart, hspares, ?_⟩
    rintro ⟨v, hv, hhuman⟩
    rcases (mem_put key).mp hv with rfl | ⟨hv, -⟩
    · rcases hmay with ⟨w, hw, ⟨-, hservice⟩, -⟩ | ⟨⟨-, hservice⟩, -⟩
      · exact ⟨w, hw, hservice.trans hhuman⟩
      · rw [hservice] at hhuman
        cases hhuman
    · exact ⟨v, hv, hhuman⟩

end Steps

section Knowledge
variable {site : Site} {start : List User} {s s' : Shared} {n : ℕ} {K K' : Shared → Prop}

theorem rely_spares (h : Rely site.system (contract site start) n s s') : Spares key n s.db s'.db ∧
    (Peopled s' → Peopled s ∨ s.db.holder .contentType ≠ some n) := by
  rcases h.other with ⟨e, he⟩ | ⟨m, hm, hspares, hpeople⟩
  · obtain ⟨-, hspares, hpeople⟩ := Inv.disturbed h.before he
    exact ⟨hspares n, fun hpeopled => Or.inl (hpeople hpeopled)⟩
  · refine ⟨hspares n hm.symm, fun hpeopled => (hpeople hpeopled).imp_right fun hholder heq => ?_⟩
    exact hm (Option.some.inj (hholder.symm.trans heq))

/-- What a transaction has found out under its locks: the others do not end it, and it does not end it itself before
its commit. -/
structure Known (site : Site) (start : List User) (n : ℕ) (K : Shared → Prop) : Prop where
  stable : Stable site.system (contract site start) n K
  calm : ∀ s s', Calm n s.db s'.db → K s → K s'

theorem Known.and (h : Known site start n K) (h' : Known site start n K') : Known site start n fun s => K s ∧ K' s :=
  ⟨h.stable.and h'.stable, fun s s' hcalm hs => ⟨h.calm s s' hcalm hs.1, h'.calm s s' hcalm hs.2⟩⟩

theorem known_true : Known site start n fun _ => True := ⟨stable_const True, fun _ _ _ _ => trivial⟩

theorem known_holds (k : Key) : Known site start n fun s => Holds n k s.db :=
  ⟨fun _ _ hs hrely => (rely_spares hrely).1.holds hs, fun _ _ hcalm hs => hcalm.holds hs⟩

theorem known_sees (u : User) : Known site start n fun s => Sees key n u s.db :=
  ⟨fun _ _ hs hrely => (rely_spares hrely).1.sees hs, fun _ _ hcalm hs => hcalm.sees hs⟩

theorem known_lacks (k : Key) : Known site start n fun s => Lacks key n k s.db :=
  ⟨fun _ _ hs hrely => (rely_spares hrely).1.lacks hs, fun _ _ hcalm hs => hcalm.lacks hs⟩

/-- Under the lock of the content type, there is no human. -/
def Unpeopled (n : ℕ) (s : Shared) : Prop := s.db.ended n = true ∨ s.db.holder .contentType = some n ∧ ¬ Peopled s

theorem known_unpeopled : Known site start n (Unpeopled n) := by
  refine ⟨fun s s' hs hrely => ?_, fun s s' hcalm hs => ?_⟩
  · obtain ⟨hspares, hpeople⟩ := rely_spares hrely
    rcases hspares with hended | ⟨hended, -, hholder, -⟩
    · exact Or.inl hended
    · exact hs.imp hended.trans fun ⟨hheld, hnone⟩ =>
        ⟨hholder _ hheld, fun hpeopled => (hpeople hpeopled).elim hnone fun hne => hne hheld⟩
  · exact hs.imp hcalm.ended.trans fun ⟨hheld, hnone⟩ => ⟨hcalm.holder _ hheld, by rwa [Peopled, hcalm.rows]⟩

end Knowledge

section Calls
variable {site : Site} {start : List User} {s s' : Shared} {n : ℕ} {k : Request ⊕ Confirm} {K P : Shared → Prop} {α : Type}
  {op : Call} {value : Reply → Option α} {Q : α → Shared → Prop}

attribute [local simp] effect

theorem own_release (s : Shared) (n : ℕ) : (contract site start).own n s { s with db := s.db.release n } :=
  ⟨fun m _ => release_spares key n m s.db, Or.inl⟩

theorem own_lock {key' : Key} {db : Database Key User Note} (h : s.db.lock n key' = some db) :
    (contract site start).own n s { s with db := db } := by
  refine ⟨fun m hm => lock_spares h hm, ?_⟩
  rintro ⟨u, hu, hhuman⟩
  rw [(lock_calm h).1.rows] at hu
  exact Or.inl ⟨u, hu, hhuman⟩

theorem own_stage {u : User} {db : Database Key User Note} {made : List Text} (h : s.db.stage key n u = some db) :
    (contract site start).own n s ⟨db, made, s.now⟩ := by
  refine ⟨fun m hm => stage_spares h hm, ?_⟩
  rintro ⟨v, hv, hhuman⟩
  rw [(stage_calm h).1.rows] at hv
  exact Or.inl ⟨v, hv, hhuman⟩

theorem Inv.commit (h : Inv site start s) {note : Note} {u : User} {db : Database Key User Note}
    (hcommit : s.db.commit key n note = some db) (hu : s.db.pending n = some u)
    (hallowed : Allowed site start ⟨note, u⟩ s.db.log)
    (hpeople : u.isServiceAccount = false → Peopled s ∨ s.db.holder .contentType = some n) :
    (contract site start).own n s { s with db := db } ∧ Inv site start { s with db := db } := by
  have hspares (m : ℕ) (hm : m ≠ n) := commit_spares hcommit (h.disciplined.held n) hm
  obtain ⟨-, v, hv, rfl⟩ := commit_eq_some hcommit
  obtain rfl := Option.some.inj (hu.symm.trans hv)
  refine ⟨⟨hspares, ?_⟩, ?_⟩
  · rintro ⟨v, hv, hhuman⟩
    rcases (mem_put key).mp hv with rfl | ⟨hv, -⟩
    · exact hpeople hhuman
    · exact Or.inl ⟨v, hv, hhuman⟩
  · -- The pending row is gone when the new one is there.
    refine (h.release n).enter hallowed (fun p hp => hp) (h.pending n u hu).1 fun m v hv => ?_
    change (s.db.release n).pending m = some v at hv
    rw [release_pending] at hv
    split_ifs at hv with hm
    exact h.apart m n v u hm hv hu

theorem keeps_op (hP : Stable site.system (contract site start) n P) (hs : P s) (herror : value .error = none)
    (hcall : ∀ s r s', P s → Inv site start s → r ≠ .error → effect site n op r s = some s' →
      (contract site start).own n s s' ∧ Inv site start s' ∧ ∀ a, value r = some a → Q a s') :
    Keeps site.system (contract site start) n k (invoke op value) Q s := by
  refine keeps_invoke hP hs fun s hs hinv r s' heffect => ?_
  by_cases hr : r = .error
  · subst hr
    have hreleased : some { s with db := s.db.release n } = some s' := by
      rw [← heffect]
      change _ = effect site n op .error s
      unfold effect
      rfl
    obtain rfl := Option.some.inj hreleased
    refine ⟨own_release s n, Inv.release hinv n, fun a ha => ?_⟩
    rw [herror] at ha
    cases ha
  · exact hcall s r s' hs hinv hr heffect

/-- A question changes nothing. -/
theorem keeps_ask (hquiet : ∀ r s s', r ≠ .error → effect site n op r s = some s' → s' = s)
    (hP : Stable site.system (contract site start) n P) (hs : P s) (herror : value .error = none)
    (h : ∀ s r a, P s → Inv site start s → effect site n op r s = some s → value r = some a → Q a s) :
    Keeps site.system (contract site start) n k (invoke op value) Q s := by
  refine keeps_op hP hs herror fun s r s' hs hinv hr heffect => ?_
  obtain rfl := hquiet r s s' hr heffect
  exact ⟨⟨fun m _ => .refl key m s'.db, Or.inl⟩, hinv, fun a ha => h s' r a hs hinv heffect ha⟩

theorem keeps_refuse (hP : Stable site.system (contract site start) n P) (hs : P s) {Q : Unit → Shared → Prop} :
    Keeps site.system (contract site start) n k refuse Q s := by
  refine keeps_bind (keeps_op hP hs rfl fun s r s' _ hinv hr heffect => ?_)
  cases r with
  | done =>
    simp only [effect, Option.ite_none_right_eq_some, Option.map_some, Option.some.injEq] at heffect
    obtain ⟨-, rfl⟩ := heffect
    exact ⟨own_release s n, Inv.release hinv n, fun _ _ => trivial⟩
  | _ => simp_all

theorem keeps_leave (hP : Stable site.system (contract site start) n P) (hs : P s) :
    Keeps site.system (contract site start) n k leave (fun _ _ => True) s := by
  refine keeps_op hP hs rfl fun s r s' _ hinv hr heffect => ?_
  have hreleased : s' = { s with db := s.db.release n } := by
    cases r <;> simp_all
  rw [hreleased]
  exact ⟨own_release s n, Inv.release hinv n, fun _ _ => trivial⟩

theorem keeps_check {c : Prop} [Decidable c] {rest : Script Unit} {Q : Unit → Shared → Prop}
    (hP : Stable site.system (contract site start) n P) (hs : P s)
    (h : c → Keeps site.system (contract site start) n k rest Q s) :
    Keeps site.system (contract site start) n k (check c rest) Q s := by
  unfold check
  split_ifs with hc
  · exact h hc
  · exact keeps_refuse hP hs

theorem keeps_lockContentType (hK : Known site start n K) (hs : K s) :
    Keeps site.system (contract site start) n k (invoke .lockContentType Reply.asDone)
      (fun _ s => K s ∧ Holds n .contentType s.db) s := by
  refine keeps_op hK.stable hs rfl fun s r s' hs hinv hr heffect => ?_
  cases r with
  | done =>
    obtain ⟨db, hdb, rfl⟩ := Option.map_eq_some_iff.mp heffect
    obtain ⟨hcalm, hheld⟩ := lock_calm hdb
    exact ⟨own_lock hdb, hinv.lock hdb, fun _ _ => ⟨hK.calm s _ hcalm hs, Or.inr hheld⟩⟩
  | _ => simp_all

/-- A row that is locked is seen as it is. -/
theorem keeps_lockRow (hK : Known site start n K) (hs : K s) {P : User → Prop}
    (hnone : ∀ s s', effect site n op (.found none) s = some s' → s' = s)
    (hsome : ∀ u s s', effect site n op (.found (some u)) s = some s' → P u ∧ u ∈ s.db.rows ∧
      ∃ db, s.db.lock n (key u) = some db ∧ s' = { s with db := db })
    (hother : ∀ r s, r ≠ .error → r.asFound = none → effect site n op r s = none) :
    Keeps site.system (contract site start) n k (invoke op Reply.asFound) (fun found s => K s ∧
      ∀ u, found = some u → P u ∧ Sees key n u s.db) s := by
  refine keeps_op hK.stable hs rfl fun s r s' hs hinv hr heffect => ?_
  cases r with
  | found found =>
    cases found with
    | none =>
      obtain rfl := hnone s s' heffect
      refine ⟨⟨fun m _ => .refl key m s'.db, Or.inl⟩, hinv, ?_⟩
      rintro found ⟨⟩
      refine ⟨hs, ?_⟩
      rintro u ⟨⟩
    | some u =>
      obtain ⟨hu, hmem, db, hdb, rfl⟩ := hsome u s s' heffect
      obtain ⟨hcalm, hheld⟩ := lock_calm hdb
      refine ⟨own_lock hdb, hinv.lock hdb, ?_⟩
      rintro found ⟨⟩
      refine ⟨hK.calm s _ hcalm hs, ?_⟩
      rintro v ⟨⟩
      exact ⟨hu, Or.inr ⟨hheld, hcalm.rows ▸ hmem⟩⟩
  | _ =>
    rw [hother _ s hr rfl] at heffect
    cases heffect

theorem keeps_setPassword (hK : Known site start n K) (hs : K s) (user : User) :
    Keeps site.system (contract site start) n k (invoke (.setPassword user) Reply.asUser)
      (fun u s => (K s ∧ Stages n u s.db) ∧ u = { user with password := u.password }) s := by
  refine keeps_op hK.stable hs rfl fun s r s' hs hinv hr heffect => ?_
  cases r with
  | user u =>
    simp only [effect, Option.ite_none_right_eq_some, Option.map_eq_some_iff] at heffect
    obtain ⟨⟨hu, hfresh⟩, db, hdb, rfl⟩ := heffect
    obtain ⟨hcalm, hstaged⟩ := stage_calm hdb
    refine ⟨own_stage hdb, hinv.stage hfresh hdb, ?_⟩
    rintro v ⟨⟩
    exact ⟨⟨hK.calm s _ hcalm hs, Or.inr hstaged⟩, hu⟩
  | _ => simp_all

theorem stable_stages (hK : Known site start n K) (u : User) :
    Stable site.system (contract site start) n fun s => K s ∧ Stages n u s.db :=
  hK.stable.and fun _ _ hs hrely => (rely_spares hrely).1.stages hs

theorem keeps_commit {note : Note} {u : User} (hK : Known site start n K) (hs : K s ∧ Stages n u s.db)
    (hcommit : ∀ s, K s → Inv site start s → s.db.ended n = false → u.password ∉ seen start s.db.log →
      Allowed site start ⟨note, u⟩ s.db.log ∧
        (u.isServiceAccount = false → Peopled s ∨ s.db.holder .contentType = some n)) :
    Keeps site.system (contract site start) n k (invoke (.commit (some note)) Reply.asDone) (fun _ _ => True) s := by
  refine keeps_op (stable_stages hK u) hs rfl fun s r s' hs hinv hr heffect => ?_
  obtain ⟨db, hdb, rfl⟩ : ∃ db, s.db.commit key n note = some db ∧ s' = { s with db := db } := by
    cases r with
    | done | lost =>
      obtain ⟨db, hdb, rfl⟩ := Option.map_eq_some_iff.mp heffect
      exact ⟨db, hdb, rfl⟩
    | _ => simp_all
  obtain ⟨hlive, -⟩ := commit_eq_some hdb
  have hu : s.db.pending n = some u := by
    rcases hs.2 with hended | hu
    · rw [hlive] at hended
      cases hended
    · exact hu
  obtain ⟨hallowed, hpeople⟩ := hcommit s hs.1 hinv hlive (hinv.pending n u hu).2
  obtain ⟨hown, hinv'⟩ := hinv.commit hdb hu hallowed hpeople
  exact ⟨hown, hinv', fun _ _ => trivial⟩

theorem keeps_clock (hP : Stable site.system (contract site start) n P) (hs : P s) :
    Keeps site.system (contract site start) n k (invoke .clock Reply.asInstant) (fun _ => P) s := by
  refine keeps_ask (fun r s s' hr heffect => ?_) hP hs rfl fun s r _ hs _ _ _ => hs
  cases r <;> simp_all

theorem keeps_prepare (hP : Stable site.system (contract site start) n P) (hs : P s) :
    Keeps site.system (contract site start) n k (invoke .prepare Reply.asYes) (fun _ => P) s := by
  refine keeps_ask (fun r s s' hr heffect => ?_) hP hs rfl fun s r _ hs _ _ _ => hs
  cases r <;> simp_all

theorem keeps_finishAccess {user : User} {note : Link → Note} (hK : Known site start n K) (hs : K s)
    (hcommit : ∀ s u now, K s → Inv site start s → s.db.ended n = false → u = { user with password := u.password } →
      u.password ∉ seen start s.db.log → Allowed site start ⟨note (site.link u now), u⟩ s.db.log ∧
        (u.isServiceAccount = false → Peopled s ∨ s.db.holder .contentType = some n)) :
    Keeps site.system (contract site start) n k (finishAccess site user note) (fun _ _ => True) s := by
  refine keeps_bind ((keeps_setPassword hK hs user).mono fun u s ⟨hs, hu⟩ => ?_)
  have hstable := stable_stages hK u
  refine keeps_bind ((keeps_clock hstable hs).mono fun now s hs => ?_)
  refine keeps_bind ((keeps_prepare hstable hs).mono fun _ s hs => ?_)
  refine keeps_check hstable hs fun _ => ?_
  exact keeps_commit hK hs fun s hs hinv hlive hfresh => hcommit s u now hs hinv hlive hu hfresh

theorem keeps_createUser (hK : Known site start n K) (hs : K s) (username email : Text) :
    Keeps site.system (contract site start) n k (invoke (.createUser username email) Reply.asUser)
      (fun u s => (K s ∧ Lacks key n (key u) s.db) ∧ isNewAdmin username (site.normalizeEmail email) u = true) s := by
  refine keeps_op hK.stable hs rfl fun s r s' hs hinv hr heffect => ?_
  cases r with
  | user u =>
    simp only [effect, Option.ite_none_right_eq_some, Option.bind_eq_some_iff, Option.map_eq_some_iff] at heffect
    obtain ⟨⟨hnew, hnone, hfresh⟩, db, hlock, db', hstage, rfl⟩ := heffect
    obtain ⟨hcalm, hheld⟩ := lock_calm hlock
    obtain ⟨hcalm', -⟩ := stage_calm hstage
    have hown (m : ℕ) (hm : m ≠ n) : Spares key m s.db db' :=
      (lock_spares hlock hm).trans (stage_spares hstage hm) hcalm'.rows
    refine ⟨⟨hown, ?_⟩, Inv.stage (hinv.lock hlock) hfresh hstage, ?_⟩
    · rintro ⟨v, hv, hhuman⟩
      rw [(hcalm.trans hcalm').rows] at hv
      exact Or.inl ⟨v, hv, hhuman⟩
    · rintro v ⟨⟩
      refine ⟨⟨hK.calm s _ (hcalm.trans hcalm') hs, Or.inr ⟨hcalm'.holder _ hheld, fun v hv heq => ?_⟩⟩, hnew⟩
      rw [(hcalm.trans hcalm').rows] at hv
      exact of_decide_eq_true (List.all_eq_true.mp hnone v hv) (key_eq.mp heq)
  | _ => simp_all

theorem keeps_humansExist (hs : Holds n .contentType s.db) :
    Keeps site.system (contract site start) n k (invoke .humansExist Reply.asYes)
      (fun humans s => Holds n .contentType s.db ∧ (humans = false → Unpeopled n s)) s := by
  refine keeps_ask (fun r s s' hr heffect => ?_) (known_holds _).stable hs rfl fun s r humans hs _ heffect hvalue => ⟨hs, ?_⟩
  · cases r <;> simp_all
  · rintro rfl
    obtain rfl : r = .yes false := by
      cases r <;> simp_all [Reply.asYes]
    simp only [effect, Option.ite_none_right_eq_some] at heffect
    obtain ⟨⟨-, hnone⟩, -⟩ := heffect
    refine hs.imp_right fun hheld => ⟨hheld, ?_⟩
    rintro ⟨u, hu, hhuman⟩
    have hany : s.db.rows.any (fun u => !u.isServiceAccount) = true :=
      List.any_eq_true.mpr ⟨u, hu, by rw [hhuman]; rfl⟩
    rw [hany] at hnone
    cases hnone

theorem keeps_identityExists (hP : Stable site.system (contract site start) n P) (hs : P s) (username email : Text) :
    Keeps site.system (contract site start) n k (invoke (.identityExists username email) Reply.asYes) (fun _ => P) s := by
  refine keeps_ask (fun r s s' hr heffect => ?_) hP hs rfl fun s r _ hs _ _ _ => hs
  cases r <;> simp_all

/-- There is still no human when the first one is committed. -/
theorem allowed_bootstrap {r : Request} (hmode : r.mode = text "bootstrap") {user u : User} {now : ℕ}
    (hs : Unpeopled n s ∧ Lacks key n (key user) s.db) (hinv : Inv site start s) (hlive : s.db.ended n = false)
    (hnew : isNewAdmin r.username (site.normalizeEmail r.email) user = true) (hu : u = { user with password := u.password })
    (hfresh : u.password ∉ seen start s.db.log) : Allowed site start ⟨.bootstrap r (site.link u now), u⟩ s.db.log ∧
      (u.isServiceAccount = false → Peopled s ∨ s.db.holder .contentType = some n) := by
  obtain ⟨hunpeopled, hlacks⟩ := hs
  rcases hunpeopled with hended | ⟨hheld, hnobody⟩
  · rw [hlive] at hended
    cases hended
  rcases hlacks with hended | ⟨-, hnone⟩
  · rw [hlive] at hended
    cases hended
  have hrows := hinv.disciplined.rows
  refine ⟨⟨hmode, fun v hv => ?_, fun v hv heq => ?_, ?_, hfresh, now, rfl⟩, fun _ => Or.inr hheld⟩
  · exact Bool.eq_true_of_not_eq_false fun hhuman => hnobody ⟨v, hrows ▸ hv, hhuman⟩
  · have hpk : u.pk = user.pk := by rw [hu]
    exact hnone v (hrows ▸ hv) (key_eq.mpr (heq.trans hpk))
  · change isNewAdmin _ _ u = true
    rw [hu]
    exact hnew

theorem keeps_bootstrap {r : Request} (hmode : r.mode = text "bootstrap") (hs : Holds n .contentType s.db) :
    Keeps site.system (contract site start) n k (do
      let humans ← invoke .humansExist Reply.asYes
      check (humans = false) do
        let taken ← invoke (.identityExists r.username r.email) Reply.asYes
        check (taken = false) do
          let user ← invoke (.createUser r.username r.email) Reply.asUser
          finishAccess site user (.bootstrap r)) (fun _ _ => True) s := by
  refine keeps_bind ((keeps_humansExist hs).mono fun humans s hs => ?_)
  refine keeps_check (known_holds _).stable hs.1 fun hnone => ?_
  have hunpeopled := hs.2 hnone
  refine keeps_bind ((keeps_identityExists known_unpeopled.stable hunpeopled _ _).mono fun taken s hs => ?_)
  refine keeps_check known_unpeopled.stable hs fun _ => ?_
  refine keeps_bind ((keeps_createUser known_unpeopled hs _ _).mono fun user s ⟨hs, hnew⟩ => ?_)
  exact keeps_finishAccess (known_unpeopled.and (known_lacks _)) hs
    fun s u now hs hinv hlive hu hfresh => allowed_bootstrap hmode hs hinv hlive hnew hu hfresh

/-- A row that is seen under its lock can be given a new password hash. -/
theorem renews_seen {user u : User} (note : Note) (hs : Sees key n user s.db) (hinv : Inv site start s)
    (hlive : s.db.ended n = false) (hlocal : isLocalHuman user = true) (hu : u = { user with password := u.password })
    (hfresh : u.password ∉ seen start s.db.log) : Renews start user ⟨note, u⟩ s.db.log ∧ Peopled s := by
  rcases hs with hended | ⟨-, hmem⟩
  · rw [hlive] at hended
    cases hended
  · exact ⟨⟨hinv.disciplined.rows ▸ hmem, hlocal, hu, hfresh⟩, user, hmem, isLocalHuman_service hlocal⟩

theorem keeps_selectUser (hK : Known site start n K) (hs : K s) (username : Text) :
    Keeps site.system (contract site start) n k (invoke (.selectUser username) Reply.asFound) (fun found s => K s ∧
      ∀ u, found = some u → u.username = username ∧ Sees key n u s.db) s := by
  refine keeps_lockRow hK hs (fun s s' heffect => ?_) (fun u s s' heffect => ?_) fun r s hr hvalue => ?_
  · simp only [effect, Option.ite_none_right_eq_some, Option.some.injEq] at heffect
    exact heffect.2.symm
  · simp only [effect, Option.ite_none_right_eq_some, Option.map_eq_some_iff] at heffect
    obtain ⟨⟨hmem, hname⟩, db, hdb, rfl⟩ := heffect
    exact ⟨hname, hmem, db, hdb, rfl⟩
  · cases r <;> simp_all [Reply.asFound]

theorem keeps_lockUser (hK : Known site start n K) (hs : K s) (pk : ℕ) :
    Keeps site.system (contract site start) n k (invoke (.lockUser pk) Reply.asFound) (fun found s => K s ∧
      ∀ u, found = some u → u.pk = pk ∧ Sees key n u s.db) s := by
  refine keeps_lockRow hK hs (fun s s' heffect => ?_) (fun u s s' heffect => ?_) fun r s hr hvalue => ?_
  · simp only [effect, Option.ite_none_right_eq_some, Option.some.injEq] at heffect
    exact heffect.2.symm
  · simp only [effect, Option.ite_none_right_eq_some, Option.map_eq_some_iff] at heffect
    obtain ⟨⟨hmem, hpk⟩, db, hdb, rfl⟩ := heffect
    exact ⟨hpk, hmem, db, hdb, rfl⟩
  · cases r <;> simp_all [Reply.asFound]

theorem keeps_applyAccess (r : Request) :
    Keeps site.system (contract site start) n k (applyAccess site r) (fun _ _ => True) s := by
  refine keeps_bind ((keeps_lockContentType known_true trivial).mono fun _ s ⟨_, hs⟩ => ?_)
  split_ifs with hmode
  · exact keeps_bootstrap hmode hs
  · refine keeps_bind ((keeps_selectUser (known_holds _) hs r.username).mono fun found s ⟨hs, hfound⟩ => ?_)
    cases found with
    | none => exact keeps_refuse (known_holds _).stable hs
    | some user =>
      obtain ⟨hname, hsees⟩ := hfound user rfl
      have hknown : Known site start n fun s => Sees key n user s.db := known_sees user
      have hstable := hknown.stable
      refine keeps_check hstable hsees fun hemail => keeps_check hstable hsees fun hlocal => ?_
      refine keeps_finishAccess (known_sees user) hsees fun s u now hs hinv hlive hu hfresh => ?_
      obtain ⟨hrenews, hpeopled⟩ := renews_seen (.recover r user (site.link u now)) hs hinv hlive hlocal hu hfresh
      exact ⟨⟨hmode, hname, hemail, hrenews, now, rfl⟩, fun _ => Or.inl hpeopled⟩

theorem keeps_getUser (pk : ℕ) :
    Keeps site.system (contract site start) n k (invoke (.getUser pk) Reply.asFound) (fun _ _ => True) s := by
  refine keeps_ask (fun r s s' hr heffect => ?_) (stable_const True) trivial rfl fun _ _ _ _ _ _ _ => trivial
  cases r <;> simp_all

theorem keeps_dispatch (c : Confirm) :
    Keeps site.system (contract site start) n k (dispatch site c) (fun _ _ => True) s := by
  have hnothing := stable_const (S := site.system) (C := contract site start) (n := n) True
  refine keeps_bind ((keeps_getUser c.pk).mono fun seen s _ => ?_)
  cases seen with
  | none => exact keeps_leave hnothing trivial
  | some _ =>
    refine keeps_bind ((keeps_lockUser known_true trivial c.pk).mono fun found s ⟨_, hfound⟩ => ?_)
    cases found with
    | none => exact keeps_leave hnothing trivial
    | some user =>
      obtain ⟨hpk, hsees⟩ := hfound user rfl
      have hknown : Known site start n fun s => Sees key n user s.db := known_sees user
      refine keeps_bind ((keeps_clock hknown.stable hsees).mono fun now s hs => ?_)
      split_ifs with hvalid
      · obtain ⟨hlocal, hcheck, hsets⟩ := hvalid
        refine keeps_bind ((keeps_setPassword hknown hs user).mono fun u s ⟨hs, hu⟩ => ?_)
        refine keeps_commit hknown hs fun s hs hinv hlive hfresh => ?_
        obtain ⟨hrenews, hpeopled⟩ := renews_seen (.set c user now) hs hinv hlive hlocal hu hfresh
        exact ⟨⟨hpk, hsets, hcheck, hrenews⟩, fun _ => Or.inl hpeopled⟩
      · exact keeps_leave hknown.stable hs

theorem sound (site : Site) (hstart : (start.map key).Nodup) (now : ℕ) :
    Sound site.system (contract site start) (fun _ _ => True) (.initial start now) where
  start_inv := by
    refine ⟨disciplined_initial hstart, trivial, fun p hp => hp, ?_, ?_⟩
    · rintro n v ⟨⟩
    · rintro n m v u _ ⟨⟩
  start_fresh _ := trivial
  disturb_inv e s s' hs he := (hs.disturbed he).1
  fresh_stable _ := stable_const True
  program n k s _ _ := by
    cases k with
    | inl r => exact keeps_applyAccess r
    | inr c => exact keeps_dispatch c

end Calls

/-- Whatever commands and requests are made and wherever they stop: the accounts are what the commits make of them one
after another, each allowed where it stands. There is at most one bootstrap, a token sets at most one password, and a
recovery or a reset of a user ends all links that were given out for this user before. -/
theorem access_serial (site : Site) (start : List User) (hstart : (start.map key).Nodup) (now : ℕ)
    (actions : List (Processes.Action Reply (Request ⊕ Confirm) Disturb)) :
    let db := (site.system.after (.initial start now) actions).state.db
    db.rows = replay key start db.log ∧ Lawful (Allowed site start) db.log ∧
    db.log.countP (fun e => e.note.isBootstrap) ≤ 1 ∧
    (∀ token, db.log.countP (fun e => e.note.token = some token) ≤ 1) ∧
    ∀ later c earlier pk, db.log = later ++ c :: earlier → c.note.renewed = some pk →
      ∀ e ∈ earlier, ∀ link, e.note.link = some link → link.pk = pk →
        (∀ u ∈ db.rows, ∀ now, site.checkToken u link.token now = false) ∧
        ∀ e' ∈ later, e'.note.token ≠ some link.token := by
  intro db
  have hinv : Inv site start (site.system.after (.initial start now) actions).state :=
    (System.after_good (sound site hstart now) actions).inv
  have hrows : db.rows = replay key start db.log := hinv.disciplined.rows
  have hlawful : Lawful (Allowed site start) db.log := hinv.lawful
  refine ⟨hrows, hlawful, bootstrap_once hstart hlawful, token_once hstart hlawful, ?_⟩
  intro later c earlier pk hlog hc e he link hlink hpk
  have hsplit := hlog ▸ hlawful
  obtain ⟨v, t, hmade, hspent⟩ := link_spent hstart hsplit hc he hlink hpk
  refine ⟨fun u hu now => ?_, fun e' he' htoken => ?_⟩
  · rw [hrows, hlog] at hu
    exact hspent.refused rfl rfl hmade hu
  · obtain ⟨later', earlier', rfl⟩ := List.append_of_mem he'
    rw [List.append_assoc, List.cons_append] at hsplit
    obtain ⟨v', t', hmade', hspent'⟩ := link_spent hstart (Lawful.suffix hsplit) hc he hlink hpk
    have hentry := hsplit.entry
    obtain ⟨note, row⟩ := e'
    cases note with
    | set k old now =>
      obtain ⟨-, -, hcheck, hrenews⟩ := hentry
      rw [Option.some.inj htoken, hspent'.refused rfl rfl hmade' hrenews.mem] at hcheck
      cases hcheck
    | bootstrap | recover | other => cases htoken

section Sample

/-- A token is its user's key, its time and the password hash. -/
def plainSite : Site where
  makeToken u t := u.pk :: t :: u.password
  timestamp
    | _ :: t :: _ => some t
    | _ => none
  timestamp_make _ _ := rfl
  determined u u' t t' h := by
    obtain ⟨hpk, hrest⟩ := List.cons.inj h
    exact ⟨hpk, (List.cons.inj hrest).2⟩
  iexact a b := a = b
  normalizeEmail := id

def robot : User := ⟨1, text "robot", text "robot@contoso.example", true, false, true, false, [1]⟩

def ada (password : Text) : User := ⟨2, text "ada", text "ada@contoso.example", true, false, false, true, password⟩

/-- A bootstrap, and two requests with its link, the second of which finds the lock taken and then the new password. -/
def twoRequests : List (Processes.Action Reply (Request ⊕ Confirm) Disturb) :=
  [.start (.inl ⟨text "bootstrap", text "ada", text "ada@contoso.example", text "first", none, none, false⟩),
    .reply 0 .done, .reply 0 (.yes false), .reply 0 (.yes false), .reply 0 (.user (ada [2])), .reply 0 (.user (ada [3])),
    .disturb (.time 5), .reply 0 (.instant 5), .reply 0 (.yes true), .reply 0 .lost,
    .start (.inr ⟨2, [2, 5, 3], true⟩), .start (.inr ⟨2, [2, 5, 3], true⟩),
    .reply 1 (.found (some (ada [3]))), .reply 2 (.found (some (ada [3]))), .reply 1 (.found (some (ada [3]))),
    .reply 2 (.found (some (ada [3]))), .disturb (.time 9), .reply 1 (.instant 9), .reply 1 (.user (ada [4])),
    .reply 1 .done, .reply 2 (.found (some (ada [4]))), .reply 2 (.instant 9), .reply 2 .done]

theorem access_serial_sample :
    let db := (plainSite.system.after (.initial [robot] 0) twoRequests).state.db
    (db.rows = [robot, ada [4]] ∧ db.log.map (fun e => (e.note.link, e.note.token)) =
      [(none, some [2, 5, 3]), (some ⟨2, [2, 5, 3]⟩, none)]) ∧
    db.log.countP (fun e => e.note.isBootstrap) ≤ 1 ∧
    db.log.countP (fun e => e.note.token = some [2, 5, 3]) ≤ 1 := by
  obtain ⟨-, -, hbootstrap, htoken, -⟩ := access_serial plainSite [robot] (by decide) 0 twoRequests
  exact ⟨by decide +kernel, hbootstrap, htoken _⟩

end Sample
end Recovery.Concurrent
